/-
  The moderation gate. A review or a layoff event enters the store PENDING and leaves
  that status once, by a decision of an active admin; no other request moves it.

  * `StatusMove`: the life of one row's status, apart from any request.
  * `write_status`: every transaction of the API moves every row's status so.
  * `moderation_gate`: the same for whole runs, with what follows for the rows that
    are decided.
-/
import LinkedOut.Effects

namespace LinkedOut

/-- A row that is moderated before it is public. -/
inductive Content where
  | review (id : Uuid)
  | layoffEvent (id : Uuid)
  deriving DecidableEq

def Content.id : Content → Uuid
  | review id => id
  | layoffEvent id => id

/-- The status of the row, `none` while there is no such row. -/
def Db.statusOf (db : Db) : Content → Option ReviewStatus
  | .review id => (db.reviews.find? id).map Review.status
  | .layoffEvent id => (db.layoffEvents.find? id).map LayoffEvent.status

/-- The life of a status: absent, PENDING, and then what is `decided`, for good. -/
inductive StatusMove (decided : ReviewStatus → Prop) :
    Option ReviewStatus → Option ReviewStatus → Prop
  | stay (status : Option ReviewStatus) : StatusMove decided status status
  | enter : StatusMove decided none (some .pending)
  | decide {status : ReviewStatus} (h : decided status) :
      StatusMove decided (some .pending) (some status)

/-- An approve or a reject request for the row whose bearer token is an admin token of a
    stored admin who is active, and what it decides. -/
def DecidedBy (p : Platform) (env : Env) (db : Db) (req : Request) (c : Content)
    (status : ReviewStatus) : Prop :=
  ∃ itemType token admin,
    ((req = .approveModerationItem itemType c.id token ∧ status = .published) ∨
      ∃ reason, req = .rejectModerationItem itemType c.id reason token ∧ status = .rejected) ∧
    IsAdminToken p (env.now 0) token admin.id ∧
    db.adminUsers.find? admin.id = some admin ∧ admin.isActive = true

theorem decision_cases {req : Request} {itemType : ModeratedItemType} {itemId : Uuid}
    {decision : Decision} {token : Option String}
    (h : req.decision = some (itemType, itemId, decision, token)) :
    (req = .approveModerationItem itemType itemId token ∧ decision = approval) ∨
      ∃ reason, req = .rejectModerationItem itemType itemId reason token ∧
        decision = rejection reason := by
  cases req with
  | approveModerationItem t i tok => cases h; exact Or.inl ⟨rfl, rfl⟩
  | rejectModerationItem t i reason tok => cases h; exact Or.inr ⟨reason, rfl, rfl⟩
  | _ => cases h

theorem decidedBy_of {p : Platform} {env : Env} {db : Db} {req : Request} {c : Content}
    {itemType : ModeratedItemType} {decision : Decision} {token : Option String}
    {admin : AdminUser} (hreq : req.decision = some (itemType, c.id, decision, token))
    (hadmin : getCurrentAdmin p env token db = .ok admin) :
    DecidedBy p env db req c decision.status := by
  obtain ⟨hfind, hactive, htoken⟩ := getCurrentAdmin_ok hadmin
  refine ⟨itemType, token, admin, ?_, htoken, hfind, hactive⟩
  rcases decision_cases hreq with ⟨rfl, rfl⟩ | ⟨reason, rfl, rfl⟩
  · exact Or.inl ⟨rfl, rfl⟩
  · exact Or.inr ⟨reason, rfl, rfl⟩

/-! ## One table -/

section

variable {α : Type} [Record α] (status : α → ReviewStatus)

/-- A new row enters PENDING, and the others stay. -/
theorem statusMove_insert {t u : Table α} {a : α} (h : t.insert a = some u)
    (ha : status a = .pending) (decided : ReviewStatus → Prop) (k : Nat) :
    StatusMove decided ((t.find? k).map status) ((u.find? k).map status) := by
  rw [Table.find?_insert h]
  split
  · rename_i hk
    have hnone : t.find? k = none := by
      rw [Table.find?_eq_none]
      intro b hb hbk
      have hclash := (Table.insert_eq_some h).2.2 b hb
      rw [Record.clash_of_pk b a (hbk.trans hk.symm)] at hclash
      exact Bool.noConfusion hclash
    rw [hnone, Option.map_some, ha]
    exact .enter
  · exact .stay _

/-- A pending row that is updated is decided, and the others stay. -/
theorem statusMove_update {t : Table α} {k : Nat} {a : α} {f : Patch α} {new : ReviewStatus}
    (hfind : t.find? k = some a) (ha : status a = .pending) (hf : status (f.apply a) = new)
    {decided : ReviewStatus → Prop} (j : Nat) (hd : j = k → decided new) :
    StatusMove decided ((t.find? j).map status) (((t.update k f).find? j).map status) := by
  rw [Table.find?_update]
  split
  · rename_i hj
    rw [hj, hfind, Option.map_some, Option.map_some, Option.map_some, ha, hf]
    exact .decide (hd hj)
  · exact .stay _

end

/-! ## One request -/

/-- Every transaction moves every row's status along its life. -/
theorem write_status {p : Platform} {env : Env} {db db' : Db} {req : Request} {out : Response}
    (h : Write p env db req out db') (c : Content) :
    StatusMove (fun status => DecidedBy p env db req c status ∧ ∃ a, out = .ok a)
      (db.statusOf c) (db'.statusOf c) := by
  cases c with
  | review id =>
    cases h with
    | reviewSubmitted _ _ _ _ hinsert => exact statusMove_insert Review.status hinsert rfl _ id
    | reviewDecided hreq _ hadmin hitem hpending _ =>
      refine statusMove_update Review.status hitem hpending rfl id fun hid => ⟨?_, _, rfl⟩
      exact decidedBy_of (hid ▸ hreq) hadmin
    | _ => exact .stay _
  | layoffEvent id =>
    cases h with
    | layoffSubmitted _ _ _ hinsert => exact statusMove_insert LayoffEvent.status hinsert rfl _ id
    | layoffDecided hreq _ _ hadmin hitem hpending _ =>
      refine statusMove_update LayoffEvent.status hitem hpending rfl id fun hid => ⟨?_, _, rfl⟩
      exact decidedBy_of (hid ▸ hreq) hadmin
    | _ => exact .stay _

/-- The status of a row over one request, and who decides it. -/
def Gated (p : Platform) (v : ApiStep) : Prop :=
  ∀ c, StatusMove
    (fun status => DecidedBy p v.event.2.env v.before.db v.event.1 c status ∧ ∃ a, v.out = .ok a)
    (v.before.db.statusOf c) (v.after.db.statusOf c)

theorem serve_gated (p : Platform) (e : Request × Draws) (s : Server) :
    Gated p ((Api p).serve e s) := by
  intro c
  exact handle_rel (R := fun db db' => StatusMove _ (db.statusOf c) (db'.statusOf c)) (.stay _)
    fun hwrite => write_status hwrite c

/-- A row that is no longer PENDING keeps its status over one request. -/
theorem step_keeps_decided (p : Platform) (c : Content) {status : ReviewStatus}
    (hne : status ≠ .pending) (s : Server) (e : Request × Draws)
    (h : s.db.statusOf c = some status) : ((Api p).step e s).2.db.statusOf c = some status := by
  have hmove := serve_gated p e s c
  simp only [Machine.serve] at hmove
  generalize ((Api p).step e s).2.db.statusOf c = after at hmove ⊢
  rw [h] at hmove
  cases hmove with
  | stay => rfl
  | decide => exact absurd rfl hne

/-! ## Whole runs -/

/-- The moderation gate, over every run of the API from a store without content: each
    request moves each status along its life, every row stored has entered PENDING, and a
    row that is no longer PENDING keeps its status for the rest of the run. -/
theorem moderation_gate (p : Platform) (es : List (Request × Draws)) (s : Server)
    (hreviews : s.db.reviews.rows = []) (hlayoffs : s.db.layoffEvents.rows = []) :
    (∀ v ∈ (Api p).trace es s, Gated p v) ∧
    (∀ c status, ((Api p).exec es s).db.statusOf c = some status →
      ∃ v ∈ (Api p).trace es s,
        v.before.db.statusOf c = none ∧ v.after.db.statusOf c = some .pending) ∧
    (∀ i j c status, i ≤ j → status ≠ .pending →
      ((Api p).exec (es.take i) s).db.statusOf c = some status →
      ((Api p).exec (es.take j) s).db.statusOf c = some status) := by
  have hgated : ∀ v ∈ (Api p).trace es s, Gated p v := fun v hv => by
    rw [(Api p).mem_trace hv]
    exact serve_gated p v.event v.before
  refine ⟨hgated, fun c status hstatus => ?_, fun i j c status hij hne h =>
    (Api p).exec_take_of_le (step_keeps_decided p c hne) es s hij h⟩
  have hempty : s.db.statusOf c = none := by
    cases c with
    | review id => simp [Db.statusOf, Table.find?, hreviews]
    | layoffEvent id => simp [Db.statusOf, Table.find?, hlayoffs]
  obtain ⟨v, hv, hbefore, hafter⟩ := (Api p).exists_served (P := fun t => t.db.statusOf c ≠ none)
    es s (not_not.mpr hempty) (by rw [hstatus]; exact Option.some_ne_none _)
  have hmove := hgated v hv c
  rw [not_not.mp hbefore] at hmove
  refine ⟨v, hv, not_not.mp hbefore, ?_⟩
  generalize v.after.db.statusOf c = after at hmove hafter ⊢
  cases hmove with
  | stay => exact absurd rfl hafter
  | enter => rfl

/-- A review is submitted and then approved. -/
def gateRun : List (Request × Draws) :=
  [(.submitReview smallReview (some "alice"), drawsAt 0 20),
    (.approveModerationItem .review 20 (some "root"), drawsAt 1 30)]

/-- The review of `gateRun` is published at the end, and it had entered PENDING. -/
theorem gateRun_gated :
    ((Api smallPlatform).exec gateRun (.start smallDb)).db.statusOf (.review 20) =
      some .published ∧
    ∃ v ∈ (Api smallPlatform).trace gateRun (.start smallDb),
      v.before.db.statusOf (.review 20) = none ∧
        v.after.db.statusOf (.review 20) = some .pending := by
  have hpublished : ((Api smallPlatform).exec gateRun (.start smallDb)).db.statusOf (.review 20) =
      some .published := by decide
  exact ⟨hpublished, (moderation_gate smallPlatform gateRun (.start smallDb) rfl rfl).2.1 _ _
    hpublished⟩

end LinkedOut
