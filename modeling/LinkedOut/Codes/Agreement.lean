/-
  Injective agreement between the codes that are issued and the codes that are accepted.

  `Flow.Known` is what the history of a run says about the codes stored now: which step
  issued each, how many wrong codes it has met, and that an accepted one is consumed.
  `Flow.known_run` is the induction over the run. `one_time_codes_agree`: in every run
  from a database without codes, of OTPs as of email codes, every successful
  verification has a row of its own that an earlier step of the run issued.
-/
import LinkedOut.Codes.Flow

namespace LinkedOut

open OneTimeCode

/-- No clock reading of a request is before one of an earlier request. -/
def NonDecreasing (es : List (Request × Draws)) : Prop :=
  es.Pairwise fun e f => ∀ m n, e.2.now m ≤ f.2.now n

namespace Flow

variable {γ κ : Type} [Record γ] [OneTimeCode γ κ] [DecidableEq κ] {p : Platform}
  (F : Flow p γ κ)

/-- The submission `sub` of the step `v` is matched to `row`, issued by a step of `tr`: same
    key, same hash, not expired, still unconsumed, and met by fewer wrong codes than allowed. -/
structure Matched (tr : List ApiStep) (v : ApiStep) (sub : Submission κ) (row : γ) : Prop where
  issued : ∃ w ∈ tr, F.issued w = some row
  key : key row = sub.key
  codeHash : codeHash row = sub.hash
  unexpired : sub.now ≤ expiresAt row
  unconsumed : ∃ c ∈ (F.codes v.before.db).rows, pk c = pk row ∧ consumedAt c = none
  guesses : tr.countP (F.wrongFor (pk row)) < p.settings.otpMaxAttempts

/-- Step `i` of the record is a successful verification. -/
def AcceptedAt (tr : List ApiStep) (i : Nat) : Prop := ∃ v, tr[i]? = some v ∧ F.Accepts v

/-- The successful verifications are matched to rows issued before them, no two to one row. -/
def Agreement (tr : List ApiStep) : Prop :=
  ∃ matched : Nat → Uuid,
    (∀ i v sub, tr[i]? = some v → F.submitted v.event v.before.db = some sub → v.out.isOk = true →
      ∃ row, pk row = matched i ∧ F.Matched (tr.take i) v sub row) ∧
    ∀ i j, F.AcceptedAt tr i → F.AcceptedAt tr j → matched i = matched j → i = j

/-! ## What the history says about the codes -/

/-- Every wrong code was counted on the row, unless it met the row locked or expired. -/
def Counted (tr : List ApiStep) (c : γ) : Prop :=
  tr.countP (F.wrongFor (pk c)) = attempts c ∨ p.settings.otpMaxAttempts ≤ attempts c ∨
    ∃ w ∈ tr, ∃ sub, F.submitted w.event w.before.db = some sub ∧ expiresAt c < sub.now

structure Known (tr : List ApiStep) (codes : Table γ) : Prop where
  issued : ∀ c ∈ codes.rows, ∃ w ∈ tr, ∃ row, F.issued w = some row ∧ SameCode row c
  bounded : ∀ c ∈ codes.rows, attempts c ≤ p.settings.otpMaxAttempts
  targets : ∀ w ∈ tr, ∀ row, F.target w = some row → ∃ c ∈ codes.rows, pk c = pk row
  counted : ∀ c ∈ codes.rows, F.Counted tr c
  spent : ∀ w ∈ tr, F.Accepts w → ∃ row c, F.target w = some row ∧ c ∈ codes.rows ∧
    pk c = pk row ∧ (consumedAt c).isSome

theorem known_nil {codes : Table γ} (h : codes.rows = []) : F.Known [] codes := by
  constructor
  all_goals simp [h]

variable {F} {tr : List ApiStep} {s : Server}

theorem issued_serve {e : Request × Draws} {row : γ} (hasked : F.asked e s.db = some row)
    (hok : ((Api p).step e s).1.isOk = true) : F.issued ((Api p).serve e s) = some row := by
  exact (if_pos hok).trans hasked

theorem target_serve {e : Request × Draws} {sub : Submission κ}
    (hsub : F.submitted e s.db = some sub) :
    F.target ((Api p).serve e s) = sub.target (F.codes s.db) := by
  unfold target
  show (F.submitted e s.db).bind _ = _
  rw [hsub]
  rfl

/-- A wrong code was meant for the row with the id `k`. -/
theorem wrongFor_iff (v : ApiStep) (k : Uuid) :
    F.wrongFor k v = true ↔ ∃ sub row, F.submitted v.event v.before.db = some sub ∧
      sub.target (F.codes v.before.db) = some row ∧ pk row = k ∧ sub.hash ≠ codeHash row := by
  simp only [wrongFor, Option.any_eq_true, Bool.and_eq_true, beq_iff_eq, bne_iff_ne]
  constructor
  · rintro ⟨sub, hsub, row, hrow, hpk, hhash⟩
    exact ⟨sub, row, hsub, hrow, hpk, hhash⟩
  · rintro ⟨sub, row, hsub, hrow, hpk, hhash⟩
    exact ⟨sub, hsub, row, hrow, hpk, hhash⟩

theorem wrongFor_serve {e : Request × Draws} {k : Uuid} :
    F.wrongFor k ((Api p).serve e s) = true ↔ ∃ sub row, F.submitted e s.db = some sub ∧
      sub.target (F.codes s.db) = some row ∧ pk row = k ∧ sub.hash ≠ codeHash row :=
  F.wrongFor_iff _ k

theorem countP_snoc (P : ApiStep → Bool) (v : ApiStep) :
    (tr ++ [v]).countP P = tr.countP P + if P v then 1 else 0 := by
  rw [List.countP_append, List.countP_singleton]

theorem Known.issued_step (h : F.Known tr (F.codes s.db)) (e : Request × Draws) :
    ∀ c ∈ (F.codes ((Api p).step e s).2.db).rows,
      ∃ w ∈ tr ++ [(Api p).serve e s], ∃ row, F.issued w = some row ∧ SameCode row c := by
  intro c' hc'
  have hold : ∀ c ∈ (F.codes s.db).rows, SameCode c c' →
      ∃ w ∈ tr ++ [(Api p).serve e s], ∃ row, F.issued w = some row ∧ SameCode row c' := by
    intro c hc hsame
    obtain ⟨w, hw, row, hrow, hrc⟩ := h.issued c hc
    exact ⟨w, List.mem_append_left _ hw, row, hrow, hrc.trans hsame⟩
  cases (F.step e s).rowAfter hc' with
  | new hasked hok =>
    exact ⟨_, List.mem_append_right _ (List.mem_singleton_self _), c', issued_serve hasked hok,
      .refl c'⟩
  | kept hmem => exact hold c' hmem (.refl c')
  | counted hmem _ _ hsame => exact hold _ hmem hsame
  | consumed hmem _ _ hsame => exact hold _ hmem hsame

theorem Known.bounded_step (h : F.Known tr (F.codes s.db)) (e : Request × Draws) :
    ∀ c ∈ (F.codes ((Api p).step e s).2.db).rows, attempts c ≤ p.settings.otpMaxAttempts := by
  intro c' hc'
  cases (F.step e s).rowAfter hc' with
  | new _ _ hattempts => rw [hattempts]; exact Nat.zero_le _
  | kept hmem => exact h.bounded c' hmem
  | counted hmem _ hverdict _ hattempts =>
    rw [hattempts]
    exact (Submission.verdict_some hverdict).2.2.1
  | consumed hmem _ _ _ hattempts => rw [hattempts]; exact h.bounded _ hmem

theorem Known.targets_step (h : F.Known tr (F.codes s.db)) (e : Request × Draws) :
    ∀ w ∈ tr ++ [(Api p).serve e s], ∀ row, F.target w = some row →
      ∃ c ∈ (F.codes ((Api p).step e s).2.db).rows, pk c = pk row := by
  intro w hw row hrow
  have hstored : ∃ c ∈ (F.codes s.db).rows, pk c = pk row := by
    rcases List.mem_append.mp hw with hw | hw
    · exact h.targets w hw row hrow
    · rw [List.mem_singleton.mp hw] at hrow
      obtain ⟨sub, -, htarget⟩ := Option.bind_eq_some_iff.mp hrow
      exact ⟨row, (Submission.target_mem htarget).1, rfl⟩
  obtain ⟨c, hc, hpk⟩ := hstored
  obtain ⟨c', hc', hsame, -⟩ := (F.step e s).kept hc
  exact ⟨c', hc', hsame.pk ▸ hpk⟩

theorem Known.spent_step (h : F.Known tr (F.codes s.db)) (e : Request × Draws) :
    ∀ w ∈ tr ++ [(Api p).serve e s], F.Accepts w → ∃ row c, F.target w = some row ∧
      c ∈ (F.codes ((Api p).step e s).2.db).rows ∧ pk c = pk row ∧ (consumedAt c).isSome := by
  intro w hw haccepts
  rcases List.mem_append.mp hw with hw | hw
  · obtain ⟨row, c, hrow, hc, hpk, hconsumed⟩ := h.spent w hw haccepts
    obtain ⟨c', hc', hsame, hstays⟩ := (F.step e s).kept hc
    exact ⟨row, c', hrow, hc', hsame.pk ▸ hpk, hstays hconsumed⟩
  · rw [List.mem_singleton.mp hw] at haccepts ⊢
    obtain ⟨hok, hsome⟩ := haccepts
    obtain ⟨sub, hsub⟩ := Option.isSome_iff_exists.mp hsome
    have hstep := F.step e s
    change ((Api p).step e s).1.isOk = true at hok
    change F.submitted e s.db = some sub at hsub
    rw [hok, hsub] at hstep
    obtain ⟨row, hverdict, c', hc', hpk, hconsumed⟩ := hstep.success
    exact ⟨row, c', (target_serve hsub).trans (Submission.verdict_some hverdict).1, hc', hpk,
      hconsumed⟩

/-- A step that submits no wrong code for the row leaves the count alone. -/
theorem Counted.quiet {c c' : γ} {v : ApiStep} (h : F.Counted tr c) (hsame : SameCode c c')
    (hattempts : attempts c' = attempts c) (hno : F.wrongFor (pk c') v ≠ true) :
    F.Counted (tr ++ [v]) c' := by
  unfold Counted
  rw [countP_snoc, if_neg hno, Nat.add_zero, hattempts, ← hsame.pk, ← hsame.expiresAt]
  rcases h with heq | hlocked | ⟨w, hw, hexpired⟩
  · exact Or.inl heq
  · exact Or.inr (Or.inl hlocked)
  · exact Or.inr (Or.inr ⟨w, List.mem_append_left _ hw, hexpired⟩)

/-- A wrong code that is compared is counted, on the row and in the history. -/
theorem Counted.wrong {c c' : γ} {v : ApiStep} (h : F.Counted tr c) (hsame : SameCode c c')
    (hattempts : attempts c' = attempts c + 1) (hyes : F.wrongFor (pk c') v = true) :
    F.Counted (tr ++ [v]) c' := by
  unfold Counted
  rw [countP_snoc, if_pos hyes, hattempts, ← hsame.pk, ← hsame.expiresAt]
  rcases h with heq | hlocked | ⟨w, hw, hexpired⟩
  · exact Or.inl (by rw [heq])
  · exact Or.inr (Or.inl (hlocked.trans (Nat.le_succ _)))
  · exact Or.inr (Or.inr ⟨w, List.mem_append_left _ hw, hexpired⟩)

/-- A row that is not stored has met no wrong code. -/
theorem Known.unmet (h : F.Known tr (F.codes s.db)) {k : Uuid}
    (hfresh : ∀ c ∈ (F.codes s.db).rows, pk c ≠ k) : tr.countP (F.wrongFor k) = 0 := by
  rw [List.countP_eq_zero]
  intro w hw hwrong
  obtain ⟨sub, row, hsub, htarget, hpk, -⟩ := (F.wrongFor_iff w _).mp hwrong
  obtain ⟨c, hc, hcpk⟩ := h.targets w hw row (by unfold target; rw [hsub]; exact htarget)
  exact hfresh c hc (hcpk.trans hpk)

theorem Known.counted_step (h : F.Known tr (F.codes s.db)) (e : Request × Draws) :
    ∀ c ∈ (F.codes ((Api p).step e s).2.db).rows, F.Counted (tr ++ [(Api p).serve e s]) c := by
  intro c' hc'
  cases (F.step e s).rowAfter hc' with
  | new hasked hok hattempts hconsumed hfresh hnone =>
    have hno : F.wrongFor (pk c') ((Api p).serve e s) ≠ true := by
      intro hwrong
      obtain ⟨sub, -, hsub, -⟩ := wrongFor_serve.mp hwrong
      rw [hnone] at hsub
      cases hsub
    refine Or.inl ?_
    rw [countP_snoc, if_neg hno, h.unmet hfresh, hattempts]
  | kept hmem hwrong =>
    by_cases hfor : F.wrongFor (pk c') ((Api p).serve e s) = true
    · obtain ⟨sub, row, hsub, htarget, hpk, hhash⟩ := wrongFor_serve.mp hfor
      cases (F.codes s.db).eq_of_pk (Submission.target_mem htarget).1 hmem hpk
      rcases Submission.uncounted htarget hhash (hwrong sub hsub) with hexpired | hlocked
      · exact Or.inr (Or.inr ⟨_, List.mem_append_right _ (List.mem_singleton_self _), sub, hsub,
          hexpired⟩)
      · exact Or.inr (Or.inl hlocked)
    · exact (h.counted c' hmem).quiet (.refl c') rfl hfor
  | @counted c sub hmem hsub hverdict hsame hattempts =>
    refine (h.counted c hmem).wrong hsame hattempts (wrongFor_serve.mpr ?_)
    exact ⟨sub, c, hsub, (Submission.verdict_some hverdict).1, hsame.pk,
      Submission.hash_ne hverdict⟩
  | @consumed c sub hmem hsub hverdict hsame hattempts =>
    refine (h.counted c hmem).quiet hsame hattempts fun hfor => ?_
    -- the row's own code was submitted, so no wrong one
    obtain ⟨sub', row, hsub', htarget, -, hhash⟩ := wrongFor_serve.mp hfor
    rw [hsub] at hsub'
    cases hsub'
    obtain ⟨hrow, -, -, hright⟩ := Submission.verdict_some hverdict
    rw [htarget] at hrow
    cases hrow
    exact hhash (hright c rfl)

theorem Known.step (h : F.Known tr (F.codes s.db)) (e : Request × Draws) :
    F.Known (tr ++ [(Api p).serve e s]) (F.codes ((Api p).step e s).2.db) :=
  ⟨h.issued_step e, h.bounded_step e, h.targets_step e, h.counted_step e, h.spent_step e⟩

variable (F)

theorem known_run (es : List (Request × Draws)) {s : Server} (h : (F.codes s.db).rows = []) :
    F.Known ((Api p).trace es s) (F.codes ((Api p).exec es s).db) :=
  (Api p).trace_inv (I := fun tr s => F.Known tr (F.codes s.db)) (P := fun _ => True) s
    (F.known_nil h) (fun _ _ _ => trivial) (fun _ e _ hknown => hknown.step e) es trivial

/-! ## Acceptance -/

variable {F}

/-- A successful verification has met a row issued before it. -/
theorem Known.matched (h : F.Known tr (F.codes s.db)) {e : Request × Draws}
    (hclock : ∀ w ∈ tr, ∀ m n, w.event.2.now m ≤ e.2.now n) {sub : Submission κ}
    (hsub : F.submitted e s.db = some sub) (hok : ((Api p).step e s).1.isOk = true) :
    ∃ row c, F.Matched tr ((Api p).serve e s) sub row ∧
      F.target ((Api p).serve e s) = some c ∧ pk row = pk c ∧ c ∈ (F.codes s.db).rows ∧
      consumedAt c = none := by
  have hstep := F.step e s
  rw [hok, hsub] at hstep
  obtain ⟨c, hverdict, -⟩ := hstep.success
  obtain ⟨htarget, hexpires, hattempts, hright⟩ := Submission.verdict_some hverdict
  obtain ⟨hmem, hkey, hconsumed⟩ := Submission.target_mem htarget
  obtain ⟨w, hw, row, hissued, hsame⟩ := h.issued c hmem
  have hguesses : tr.countP (F.wrongFor (pk c)) < p.settings.otpMaxAttempts := by
    rcases h.counted c hmem with heq | hlocked | ⟨w', hw', sub', hsub', hexpired⟩
    · rw [heq]; exact hattempts
    · exact absurd hattempts (not_lt.mpr hlocked)
    · -- an earlier request found it expired, and the clock has not gone back since
      obtain ⟨m, hm⟩ := F.clock _ _ _ hsub'
      obtain ⟨n, hn⟩ := F.clock _ _ _ hsub
      have hle := hclock w' hw' m n
      rw [← hm, ← hn] at hle
      exact absurd hexpires (not_le.mpr (hexpired.trans_le hle))
  exact ⟨row, c, {
    issued := ⟨w, hw, hissued⟩
    key := hsame.key.trans hkey
    codeHash := hsame.codeHash.trans (hright c rfl).symm
    unexpired := hsame.expiresAt ▸ hexpires
    unconsumed := ⟨c, hmem, hsame.pk.symm, hconsumed⟩
    guesses := hsame.pk ▸ hguesses }, (target_serve hsub).trans htarget, hsame.pk, hmem, hconsumed⟩

/-- The row that the code submitted in step `i` was meant for; what a success is matched to. -/
def matchedId (F : Flow p γ κ) (tr : List ApiStep) (i : Nat) : Uuid :=
  ((tr[i]?.bind F.target).map pk).getD 0

theorem matchedId_of_target {i : Nat} {v : ApiStep} {c : γ} (hv : tr[i]? = some v)
    (htarget : F.target v = some c) : F.matchedId tr i = pk c := by
  unfold matchedId
  rw [hv, Option.bind_some, htarget]
  rfl

/-- A successful verification of a run has met a row issued before it. -/
theorem run_matched (F : Flow p γ κ) (es : List (Request × Draws)) {s : Server}
    (h0 : (F.codes s.db).rows = []) (hclock : NonDecreasing es) {i : Nat} {v : ApiStep}
    {sub : Submission κ} (hv : ((Api p).trace es s)[i]? = some v)
    (hsub : F.submitted v.event v.before.db = some sub) (hok : v.out.isOk = true) :
    ∃ row c, F.Matched (((Api p).trace es s).take i) v sub row ∧ F.target v = some c ∧
      pk row = pk c ∧ c ∈ (F.codes v.before.db).rows ∧ consumedAt c = none := by
  obtain ⟨e, he, rfl⟩ := Machine.exists_serve _ hv
  rw [Machine.trace_take]
  refine (F.known_run (es.take i) h0).matched (fun w hw m n => ?_) hsub hok
  -- the event of an earlier step stands earlier in the run
  obtain ⟨hi, rfl⟩ := List.getElem?_eq_some_iff.mp he
  obtain ⟨j, hj, hwj⟩ := List.getElem_of_mem (Machine.event_mem _ hw)
  rw [List.length_take] at hj
  rw [List.getElem_take] at hwj
  rw [← hwj]
  exact List.pairwise_iff_getElem.mp hclock j i (by omega) hi (by omega) m n

/-- Of two successful verifications the later one has met another row: the row of the
    earlier one is consumed by then. -/
theorem run_matchedId_ne (F : Flow p γ κ) (es : List (Request × Draws)) {s : Server}
    (h0 : (F.codes s.db).rows = []) (hclock : NonDecreasing es) {i j : Nat} (hij : i < j)
    (hi : F.AcceptedAt ((Api p).trace es s) i) (hj : F.AcceptedAt ((Api p).trace es s) j) :
    F.matchedId ((Api p).trace es s) i ≠ F.matchedId ((Api p).trace es s) j := by
  obtain ⟨v, hv, hvaccepts⟩ := hi
  obtain ⟨w, hw, hwok, hwsub⟩ := hj
  obtain ⟨sub, hsub⟩ := Option.isSome_iff_exists.mp hwsub
  obtain ⟨-, c, -, htarget, -, hmem, hfree⟩ := F.run_matched es h0 hclock hw hsub hwok
  intro heq
  rw [matchedId_of_target hw htarget] at heq
  obtain ⟨e, he, rfl⟩ := Machine.exists_serve _ hw
  have hvmem : v ∈ (Api p).trace (es.take j) s := by
    rw [← Machine.trace_take]
    exact List.mem_of_getElem? ((List.getElem?_take_of_lt hij).trans hv)
  obtain ⟨row, c', hrow, hmem', hpk', hspent⟩ :=
    (F.known_run (es.take j) h0).spent v hvmem hvaccepts
  rw [matchedId_of_target hv hrow] at heq
  rw [(F.codes _).eq_of_pk hmem' hmem (hpk'.trans heq), hfree] at hspent
  cases hspent

theorem agreement_run (F : Flow p γ κ) (es : List (Request × Draws)) {s : Server}
    (h0 : (F.codes s.db).rows = []) (hclock : NonDecreasing es) :
    F.Agreement ((Api p).trace es s) := by
  refine ⟨F.matchedId ((Api p).trace es s), ?_, ?_⟩
  · intro i v sub hv hsub hok
    obtain ⟨row, c, hmatched, htarget, hpk, -⟩ := F.run_matched es h0 hclock hv hsub hok
    exact ⟨row, hpk.trans (matchedId_of_target hv htarget).symm, hmatched⟩
  · intro i j hi hj heq
    rcases Nat.lt_trichotomy i j with hij | hij | hij
    · exact absurd heq (F.run_matchedId_ne es h0 hclock hij hi hj)
    · exact hij
    · exact absurd heq.symm (F.run_matchedId_ne es h0 hclock hij hj hi)

end Flow

/-- In every run from a database without codes, under a clock that never runs backwards:
    the successful verifications of OTPs and of email codes are matched to codes issued
    before them, no two to one code, and no code ever counts more attempts than allowed. -/
theorem one_time_codes_agree (p : Platform) (es : List (Request × Draws)) (s : Server)
    (hotp : s.db.otpCodes.rows = []) (hemail : s.db.emailVerificationCodes.rows = [])
    (hclock : NonDecreasing es) :
    (otpFlow p).Agreement ((Api p).trace es s) ∧ (emailFlow p).Agreement ((Api p).trace es s) ∧
      (∀ c ∈ ((Api p).exec es s).db.otpCodes.rows, c.attempts ≤ p.settings.otpMaxAttempts) ∧
      ∀ c ∈ ((Api p).exec es s).db.emailVerificationCodes.rows,
        c.attempts ≤ p.settings.otpMaxAttempts :=
  ⟨(otpFlow p).agreement_run es hotp hclock, (emailFlow p).agreement_run es hemail hclock,
    ((otpFlow p).known_run es hotp).bounded, ((emailFlow p).known_run es hemail).bounded⟩

/-- A wrong guess and a right one on a phone, then an email code of the user with the token
    `alice`. -/
def codesRun : List (Request × Draws) :=
  [(.requestOtp "+15551234567", drawsAt 0 30),
    (.verifyOtp "+15551234567" "111111", drawsAt 1 40),
    (.verifyOtp "+15551234567" "000000", drawsAt 2 50),
    (.requestEmailVerification "al@acme.com" (some "alice"), drawsAt 3 60),
    (.verifyEmail "al@acme.com" "000000" (some "alice"), drawsAt 4 70)]

theorem codesRun_agrees :
    ((Api smallPlatform).outputs codesRun (.start smallDb)).map Except.isOk =
        [true, false, true, true, true] ∧
      (otpFlow smallPlatform).Agreement ((Api smallPlatform).trace codesRun (.start smallDb)) ∧
      (emailFlow smallPlatform).Agreement
        ((Api smallPlatform).trace codesRun (.start smallDb)) := by
  obtain ⟨hotp, hemail, -⟩ := one_time_codes_agree smallPlatform codesRun (.start smallDb) rfl rfl
    (by simp [NonDecreasing, codesRun, drawsAt])
  exact ⟨by decide, hotp, hemail⟩

end LinkedOut
