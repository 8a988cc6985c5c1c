/-
  A table of one-time codes is a box for each owner.

  `openCodes` are the rows of a key that nobody has used. When the codes of a key are stamped
  in the order they are stored (`InStampOrder`) a verification meets the one stored last,
  however the engine orders the rest. `boxOf` is the box of an owner; `boxOf_sent` and
  `boxOf_submitted`: what the table is after a request is what the box of its owner is after
  the event, and the boxes of the others are what they were.
-/
import Mathlib.Logic.Equiv.Basic
import LinkedOut.CodeBox
import LinkedOut.Codes.Flow

namespace LinkedOut

open OneTimeCode

section

variable {γ κ : Type} [Record γ] [OneTimeCode γ κ] [DecidableEq κ]

/-! ## The open codes of a table -/

def openCode (c : γ) : OpenCode String Time := ⟨codeHash c, expiresAt c, attempts c⟩

/-- The rows of the key that nobody has used, the last stored first. -/
def openRows (codes : Table γ) (k : κ) : List γ :=
  (codes.select fun c => key c == k && (consumedAt c).isNone).reverse

def openCodes (codes : Table γ) (k : κ) : List (OpenCode String Time) :=
  (openRows codes k).map openCode

/-- The codes of a key are stored in the order of their stamps. -/
def InStampOrder (codes : Table γ) : Prop :=
  codes.rows.Pairwise fun c d => key c = key d → createdAt c < createdAt d

variable {codes codes' : Table γ} {k : κ} {row : γ} {rows : List γ}

theorem mem_openRows (c : γ) :
    c ∈ openRows codes k ↔ c ∈ codes.rows ∧ key c = k ∧ consumedAt c = none := by
  simp [openRows, Table.mem_select]

theorem pending_eq (h : InStampOrder codes) (place : Uuid → Nat) (k : κ) :
    pending place codes k = (openRows codes k).head? := by
  refine head?_orderDesc_of_lt _ createdAt ?_
  refine (h.filter _).imp_of_mem fun {c d} hc hd hlt => hlt ?_
  have hkey : ∀ c ∈ codes.select fun c => key c == k && (consumedAt c).isNone, key c = k := by
    intro c hc
    have hfilter := ((codes.mem_select _ c).mp hc).2
    simp only [Bool.and_eq_true, beq_iff_eq] at hfilter
    exact hfilter.1
  rw [hkey c hc, hkey d hd]

theorem openCodes_insert (h : codes.insert row = some codes') (hnone : consumedAt row = none) :
    openCodes codes' =
      Function.update (openCodes codes) (key row) (openCode row :: openCodes codes (key row)) := by
  funext k
  unfold openCodes openRows
  rw [Table.select_insert h]
  by_cases hk : k = key row
  · subst hk
    simp [hnone]
  · simp [Function.update_of_ne hk, Ne.symm hk]

/-- The rows behind the newest one are others. -/
theorem openRows_tail (h : openRows codes k = row :: rows) : ∀ c ∈ rows, pk c ≠ pk row := by
  have hnodup : (openRows codes k).Nodup := List.nodup_reverse.mpr (codes.nodup.filter _)
  have hmem : ∀ c ∈ row :: rows, c ∈ codes.rows := fun c hc => ((mem_openRows c).mp (h ▸ hc)).1
  rw [h] at hnodup
  intro c hc hpk
  have hsame : c = row :=
    codes.eq_of_pk (hmem c (List.mem_cons_of_mem _ hc)) (hmem row List.mem_cons_self) hpk
  exact (List.nodup_cons.mp hnodup).1 (hsame ▸ hc)

/-- The rows of another key are others. -/
theorem openRows_ne (h : openRows codes k = row :: rows) {j : κ} (hj : j ≠ k) :
    ∀ c ∈ openRows codes j, pk c ≠ pk row := by
  intro c hc hpk
  obtain ⟨hmem, hkey, -⟩ := (mem_openRows c).mp hc
  obtain ⟨hrow, hkeyRow, -⟩ := (mem_openRows row).mp (h ▸ List.mem_cons_self)
  cases codes.eq_of_pk hmem hrow hpk
  exact hj (hkey.symm.trans hkeyRow)

/-- An attempt on the newest code of a key. -/
theorem openCodes_setAttempts (h : openRows codes k = row :: rows) (n : Nat) :
    openCodes (codes.update (pk row) (setAttempts n)) =
      Function.update (openCodes codes) k
        ({ openCode row with attempts := n } :: rows.map openCode) := by
  have hrows : ∀ j, openRows (codes.update (pk row) (setAttempts n)) j =
      (openRows codes j).map fun c => if pk c = pk row then (setAttempts n).apply c else c := by
    intro j
    unfold openRows
    rw [Table.select_update _ _ _ fun c => by simp, List.map_reverse]
  have hother : ∀ l : List γ, (∀ c ∈ l, pk c ≠ pk row) →
      (l.map fun c => if pk c = pk row then (setAttempts n).apply c else c) = l := by
    intro l hl
    conv_rhs => rw [← List.map_id l]
    exact List.map_congr_left fun c hc => if_neg (hl c hc)
  funext j
  unfold openCodes
  rw [hrows]
  by_cases hj : j = k
  · subst hj
    rw [Function.update_self, h, List.map_cons, if_pos rfl, hother rows (openRows_tail h)]
    simp [openCode]
  · rw [Function.update_of_ne hj, hother _ (openRows_ne h hj)]

/-- The newest code of a key is used. -/
theorem openCodes_setConsumed (h : openRows codes k = row :: rows) (t : Time) :
    openCodes (codes.update (pk row) (setConsumed t)) =
      Function.update (openCodes codes) k (rows.map openCode) := by
  have hrows : ∀ j, openRows (codes.update (pk row) (setConsumed t)) j =
      (openRows codes j).filter fun c => pk c != pk row := by
    intro j
    unfold openRows
    rw [Table.select_update_out _ _ _ fun c => by simp, List.filter_reverse]
  have hother : ∀ l : List γ, (∀ c ∈ l, pk c ≠ pk row) →
      (l.filter fun c => pk c != pk row) = l :=
    fun l hl => List.filter_eq_self.mpr fun c hc => bne_iff_ne.mpr (hl c hc)
  funext j
  unfold openCodes
  rw [hrows]
  by_cases hj : j = k
  · subst hj
    rw [Function.update_self, h, List.filter_cons_of_neg (by simp), hother rows (openRows_tail h)]
  · rw [Function.update_of_ne hj, hother _ (openRows_ne h hj)]

/-! ## Verdicts and answers -/

/-- What a flow tells those it turns away. -/
structure BoxTexts where
  limited : String
  missing : String
  expired : String
  windowMinutes : Nat

/-- A response without its payload. -/
def Response.bare (out : Response) : Except HttpException Unit := out.map fun _ => ()

/-- The 429 of the limit. -/
def BoxTexts.tooManyRequests (texts : BoxTexts) : HttpException where
  status := 429
  detail := texts.limited
  headers := [("Retry-After", toString (texts.windowMinutes * 60))]

/-- What the endpoints make of the answers of a box. -/
def BoxAnswer.render (texts : BoxTexts) : BoxAnswer → Except HttpException Unit
  | .sent | .right => .ok ()
  | .limited => .error texts.tooManyRequests
  | .missing => .error { status := 400, detail := texts.missing }
  | .expired => .error { status := 400, detail := texts.expired }
  | .locked => .error { status := 429, detail := "too many attempts" }
  | .wrong left =>
    .error { status := 400, detail := s!"incorrect code, {left} attempt(s) remaining" }

/-- The table after the verdict has been committed. -/
def settled (t : Time) (codes : Table γ) : Except HttpException (Verdict γ) → Table γ
  | .error _ => codes
  | .ok (.wrong row) => codes.update (pk row) (setAttempts (attempts row + 1))
  | .ok (.right row) => codes.update (pk row) (setConsumed t)

/-- The answer to the verdict. -/
def verdictAnswer (maxAttempts : Nat) : Except HttpException (Verdict γ) → Except HttpException Unit
  | .error e => .error e
  | .ok (.wrong row) => .error (incorrectCode maxAttempts (attempts row + 1))
  | .ok (.right _) => .ok ()

/-- A verification answers and leaves what the box answers and leaves. -/
theorem judge_submitTo (h : InStampOrder codes) (rules : BoxRules Time) (texts : BoxTexts)
    (place : Uuid → Nat) (now t : Time) (hash : String) (k : κ) :
    (submitTo rules now hash (openCodes codes k)).1.render texts =
        verdictAnswer rules.maxAttempts (judge rules.maxAttempts now texts.missing texts.expired
          hash (pending place codes k)) ∧
      openCodes (settled t codes (judge rules.maxAttempts now texts.missing texts.expired hash
          (pending place codes k))) =
        Function.update (openCodes codes) k (submitTo rules now hash (openCodes codes k)).2 := by
  have hself : Function.update (openCodes codes) k (openCodes codes k) = openCodes codes :=
    Function.update_eq_self k _
  rw [pending_eq h]
  cases hrows : openRows codes k with
  | nil =>
    have hcodes : openCodes codes k = [] := congrArg (List.map openCode) hrows
    rw [hcodes] at hself ⊢
    exact ⟨rfl, hself.symm⟩
  | cons row rows =>
    have hcodes : openCodes codes k = openCode row :: rows.map openCode :=
      congrArg (List.map openCode) hrows
    rw [hcodes] at hself ⊢
    by_cases hexpired : expiresAt row < now
    · rw [submitTo_expired hexpired]
      simp only [judge, List.head?_cons, if_pos hexpired]
      exact ⟨rfl, hself.symm⟩
    by_cases hlocked : rules.maxAttempts ≤ attempts row
    · rw [submitTo_locked (not_lt.mp hexpired) hlocked]
      simp only [judge, List.head?_cons, if_neg hexpired, if_pos hlocked]
      exact ⟨rfl, hself.symm⟩
    by_cases hhash : hash ≠ codeHash row
    · rw [submitTo_wrong (not_lt.mp hexpired) (not_le.mp hlocked) hhash]
      simp only [judge, List.head?_cons, if_neg hexpired, if_neg hlocked, if_pos hhash]
      exact ⟨rfl, openCodes_setAttempts hrows _⟩
    · rw [submitTo_right (not_lt.mp hexpired) (not_le.mp hlocked) (not_not.mp hhash)]
      simp only [judge, List.head?_cons, if_neg hexpired, if_neg hlocked, if_neg hhash]
      exact ⟨rfl, openCodes_setConsumed hrows t⟩

/-! ## The boxes of the owners -/

/-- The limit, as a box reads it. -/
def Full (rules : BoxRules Time) (now : Time) (stamps : List Time) : Prop :=
  rules.maxRequests ≤ recent (now - rules.window) stamps

section

variable {ω ι : Type} [DecidableEq ω] [DecidableEq ι] (names : κ ≃ ω × ι)

/-- The box of an owner, where every key names an owner and one of the owner's addresses. -/
def boxOf (codes : Table γ) (owner : ω) : CodeBox ι String Time where
  stamps := (codes.select fun c => (names (key c)).1 == owner).map createdAt
  codes address := openCodes codes (names.symm (owner, address))

variable {names} {owner : ω} {address : ι}

/-- A code is refused by the limit. -/
theorem boxOf_limited {rules : BoxRules Time} {now : Time}
    (hfull : Full rules now (boxOf names codes owner).stamps) (address : ι) (stamp : Time)
    (secret : String) (expires : Time) :
    (Box rules).step (.request address now stamp secret expires) (boxOf names codes owner) =
      (.limited, boxOf names codes owner) :=
  if_pos hfull

/-- A code is stored. -/
theorem boxOf_sent {rules : BoxRules Time} (now : Time) (hinsert : codes.insert row = some codes')
    (hnone : consumedAt row = none) (hattempts : attempts row = 0)
    (hname : names (key row) = (owner, address))
    (hfree : ¬ Full rules now (boxOf names codes owner).stamps) :
    ((Box rules).step (.request address now (createdAt row) (codeHash row) (expiresAt row))
        (boxOf names codes owner)).1 = .sent ∧
      boxOf names codes' = Function.update (boxOf names codes) owner
        ((Box rules).step (.request address now (createdAt row) (codeHash row) (expiresAt row))
          (boxOf names codes owner)).2 := by
  have hstep : (Box rules).step
      (.request address now (createdAt row) (codeHash row) (expiresAt row))
      (boxOf names codes owner) = (.sent, _) := if_neg hfree
  rw [hstep]
  refine ⟨rfl, funext fun other => ?_⟩
  have hkey : key row = names.symm (owner, address) := by rw [← hname, Equiv.symm_apply_apply]
  have hopen := openCodes_insert hinsert hnone
  have hcode : openCode row = ⟨codeHash row, expiresAt row, 0⟩ := by rw [openCode, hattempts]
  by_cases hother : other = owner
  · subst hother
    rw [Function.update_self]
    unfold boxOf
    rw [CodeBox.mk.injEq, Table.select_insert hinsert]
    refine ⟨by simp [hname], funext fun i => ?_⟩
    rw [hopen, hkey, hcode]
    by_cases hi : i = address
    · subst hi
      rw [Function.update_self, Function.update_self]
    · rw [Function.update_of_ne hi, Function.update_of_ne (by simpa using hi)]
  · rw [Function.update_of_ne hother]
    unfold boxOf
    rw [CodeBox.mk.injEq, Table.select_insert hinsert]
    refine ⟨by simp [hname, Ne.symm hother], funext fun i => ?_⟩
    rw [hopen, hkey, Function.update_of_ne (by simp [hother])]

omit [DecidableEq κ] [DecidableEq ι] in
theorem stamps_settled (t : Time) (codes : Table γ) (v : Except HttpException (Verdict γ))
    (owner : ω) :
    ((settled t codes v).select fun c => (names (key c)).1 == owner).map createdAt =
      (codes.select fun c => (names (key c)).1 == owner).map createdAt := by
  cases v with
  | error e => rfl
  | ok v =>
    cases v with
    | wrong row => exact Table.map_select_update _ _ _ (fun c => by simp) fun c => by simp
    | right row => exact Table.map_select_update _ _ _ (fun c => by simp) fun c => by simp

/-- A code is submitted. -/
theorem boxOf_submitted (names : κ ≃ ω × ι) (horder : InStampOrder codes)
    (rules : BoxRules Time) (texts : BoxTexts) (place : Uuid → Nat) (now t : Time) (hash : String)
    (owner : ω) (address : ι) :
    ((Box rules).step (.submit address now hash) (boxOf names codes owner)).1.render texts =
        verdictAnswer rules.maxAttempts (judge rules.maxAttempts now texts.missing texts.expired
          hash (pending place codes (names.symm (owner, address)))) ∧
      boxOf names (settled t codes (judge rules.maxAttempts now texts.missing texts.expired
          hash (pending place codes (names.symm (owner, address))))) =
        Function.update (boxOf names codes) owner
          ((Box rules).step (.submit address now hash) (boxOf names codes owner)).2 := by
  obtain ⟨hanswer, hopen⟩ := judge_submitTo horder rules texts place now t hash
    (names.symm (owner, address))
  refine ⟨hanswer, funext fun other => ?_⟩
  rw [step_submit]
  by_cases hother : other = owner
  · subst hother
    rw [Function.update_self]
    unfold boxOf
    rw [CodeBox.mk.injEq]
    refine ⟨stamps_settled t codes _ other, funext fun i => ?_⟩
    rw [hopen]
    by_cases hi : i = address
    · subst hi
      rw [Function.update_self, Function.update_self]
    · rw [Function.update_of_ne hi, Function.update_of_ne (by simpa using hi)]
  · rw [Function.update_of_ne hother]
    unfold boxOf
    rw [CodeBox.mk.injEq]
    refine ⟨stamps_settled t codes _ other, funext fun i => ?_⟩
    rw [hopen, Function.update_of_ne (by simp [hother])]

end

/-! ## The order of the stamps is kept -/

omit [DecidableEq κ] in
theorem InStampOrder.update (h : InStampOrder codes) (k : Uuid) {f : Patch γ}
    (hf : ∀ c, SameCode c (f.apply c)) : InStampOrder (codes.update k f) := by
  have hside : ∀ c, SameCode c (if pk c = k then f.apply c else c) := by
    intro c
    split
    · exact hf c
    · exact .refl c
  unfold InStampOrder
  rw [Table.rows_update, List.pairwise_map]
  refine h.imp fun {c d} hlt hkey => ?_
  rw [← (hside c).createdAt, ← (hside d).createdAt]
  rw [← (hside c).key, ← (hside d).key] at hkey
  exact hlt hkey

theorem FlowStep.inStampOrder {maxAttempts : Nat} {ok : Bool} {asked : Option γ}
    {submitted : Option (Submission κ)} (h : FlowStep maxAttempts codes codes' ok asked submitted)
    (hstamp : ∀ row ∈ asked, ∀ c ∈ codes.rows, key c = key row → createdAt c < createdAt row)
    (horder : InStampOrder codes) : InStampOrder codes' := by
  cases h with
  | @issued _ row hinsert =>
    unfold InStampOrder
    rw [(Table.insert_eq_some hinsert).1]
    refine List.pairwise_append.mpr ⟨horder, List.pairwise_singleton _ _, fun c hc d hd => ?_⟩
    rw [List.mem_singleton.mp hd]
    exact hstamp row rfl c hc
  | wrong => exact horder.update _ fun c => .setAttempts _ c
  | accepted => exact horder.update _ fun c => .setConsumed _ c
  | _ => exact horder

theorem FlowStep.eq_of_idle {maxAttempts : Nat} {ok : Bool}
    (h : FlowStep maxAttempts codes codes' ok none (none : Option (Submission κ))) :
    codes' = codes := by
  cases h with
  | idle => rfl

end

end LinkedOut
