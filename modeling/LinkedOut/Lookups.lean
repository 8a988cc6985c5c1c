/-
  The lookups that end in `scalar_one_or_none`: what each selects, and the declared
  constraint that lets it select one row at most.

  The handlers select through `Lookup.rows`. A primary key or a unique constraint stands
  behind every filter but one (`length_rows_le`): employer login looks a verified account up
  by its domain hash, and `employer_accounts` is unique in `id` and `company_id` only
  (`length_rows_domain_iff`). Two more statements end in `scalar_one_or_none` and cannot
  give two rows: the newest code (`LIMIT 1`, `pending`) and the `max` of a column.
-/
import LinkedOut.Core

namespace LinkedOut

/-- One constructor a filter; the index is the table's row type. -/
inductive Lookup : Type → Type where
  /-- `_require_company` and its siblings. -/
  | companyById (companyId : Uuid) : Lookup Company
  /-- `get_current_user`, and the owner of a document. -/
  | userById (userId : Uuid) : Lookup User
  /-- `verify_otp`. -/
  | userByPhoneHash (phoneHash : String) : Lookup User
  /-- `get_current_admin`. -/
  | adminById (adminId : Uuid) : Lookup AdminUser
  /-- `admin_login`. -/
  | adminByEmail (email : String) : Lookup AdminUser
  /-- `get_current_employer_account`. -/
  | employerAccountById (accountId : Uuid) : Lookup EmployerAccount
  /-- `employer_login`. -/
  | verifiedAccountByDomain (domainHash : String) : Lookup EmployerAccount
  /-- `list_corroborations` and `_load_item`. -/
  | reviewById (reviewId : Uuid) : Lookup Review
  /-- `_load_item`. -/
  | layoffEventById (eventId : Uuid) : Lookup LayoffEvent
  /-- `_load_document_item`. -/
  | documentById (itemId : Uuid) : Lookup ModerationQueueItem
  /-- `submit_review`. -/
  | reviewByAuthor (userId companyId : Uuid) : Lookup Review
  /-- `corroborate_review`. -/
  | corroborationBy (reviewId userId : Uuid) : Lookup Corroboration
  /-- `respond_to_review`. -/
  | responseTo (reviewId : Uuid) : Lookup EmployerResponse

/-- What the SELECT gives. -/
@[reducible] def Lookup.rows {α : Type} (db : Db) : Lookup α → List α
  | companyById companyId => db.companies.select fun c => pk c == companyId
  | userById userId => db.users.select fun u => pk u == userId
  | userByPhoneHash phoneHash => db.users.select fun u => u.phoneHash == phoneHash
  | adminById adminId => db.adminUsers.select fun a => pk a == adminId
  | adminByEmail email => db.adminUsers.select fun a => a.email == email
  | employerAccountById accountId => db.employerAccounts.select fun a => pk a == accountId
  | verifiedAccountByDomain domainHash =>
    db.employerAccounts.select fun a => a.domainHash == domainHash && a.verified
  | reviewById reviewId => db.reviews.select fun r => pk r == reviewId
  | layoffEventById eventId => db.layoffEvents.select fun e => pk e == eventId
  | documentById itemId => db.moderationQueue.select fun i => pk i == itemId
  | reviewByAuthor userId companyId =>
    db.reviews.select fun r => r.userId == userId && r.companyId == companyId
  | corroborationBy reviewId userId =>
    db.corroborations.select fun c => c.reviewId == reviewId && c.userId == userId
  | responseTo reviewId => db.employerResponses.select fun r => r.reviewId == reviewId

/-- No two verified employer accounts share a domain hash. -/
def OneVerifiedAccountPerDomain (db : Db) : Prop :=
  ∀ a ∈ db.employerAccounts.rows, ∀ b ∈ db.employerAccounts.rows,
    a.verified = true → b.verified = true → a.domainHash = b.domainHash → a = b

/-! ## One row at most -/

/-- A filter that only clashing rows share selects one row at most. -/
theorem length_select_of_clash {α : Type} [Record α] (t : Table α) (p : α → Bool)
    (hp : ∀ a b, p a = true → p b = true → clash a b = true) : (t.select p).length ≤ 1 := by
  rw [t.select_of_clash p hp]
  exact Option.length_toList_le

theorem length_select_pk {α : Type} [Record α] (t : Table α) (k : Nat) :
    (t.select fun a => pk a == k).length ≤ 1 :=
  length_select_of_clash t _ fun _ _ ha hb =>
    Record.clash_of_pk _ _ ((beq_iff_eq.mp ha).trans (beq_iff_eq.mp hb).symm)

/-- A filter on the columns of the second constraint. -/
theorem length_select_uq {α κ : Type} [DecidableEq κ] {id : α → Uuid} {uq : α → κ}
    {admits : α → Bool} (t : @Table α (Record.byIdAnd id uq admits)) (p : α → Bool) (k : κ)
    (hp : ∀ a, p a = true → uq a = k) :
    (@Table.select α (Record.byIdAnd id uq admits) t p).length ≤ 1 := by
  refine @length_select_of_clash α (Record.byIdAnd id uq admits) t p fun a b ha hb => ?_
  show (id a == id b || uq a == uq b) = true
  rw [hp a ha, hp b hb, beq_self_eq_true, Bool.or_true]

/-- The filter that no constraint backs. -/
def Lookup.ByDomain {α : Type} : Lookup α → Prop
  | verifiedAccountByDomain _ => True
  | _ => False

/-- Each other filter is backed by a constraint. -/
theorem length_rows_le (db : Db) {α : Type} (l : Lookup α) (hl : ¬ l.ByDomain) :
    (l.rows db).length ≤ 1 := by
  cases l with
  | companyById id => exact length_select_pk db.companies id
  | userById id => exact length_select_pk db.users id
  | userByPhoneHash phoneHash =>
    exact length_select_uq db.users _ phoneHash fun _ => beq_iff_eq.mp
  | adminById id => exact length_select_pk db.adminUsers id
  | adminByEmail email => exact length_select_uq db.adminUsers _ email fun _ => beq_iff_eq.mp
  | employerAccountById id => exact length_select_pk db.employerAccounts id
  | verifiedAccountByDomain h => exact absurd trivial hl
  | reviewById id => exact length_select_pk db.reviews id
  | layoffEventById id => exact length_select_pk db.layoffEvents id
  | documentById id => exact length_select_pk db.moderationQueue id
  | reviewByAuthor userId companyId =>
    exact length_select_uq db.reviews _ (userId, companyId) fun r hr => by
      rw [Bool.and_eq_true, beq_iff_eq, beq_iff_eq] at hr
      exact Prod.ext hr.1 hr.2
  | corroborationBy reviewId userId =>
    exact length_select_uq db.corroborations _ (reviewId, userId) fun c hc => by
      rw [Bool.and_eq_true, beq_iff_eq, beq_iff_eq] at hc
      exact Prod.ext hc.1 hc.2
  | responseTo reviewId =>
    exact length_select_uq db.employerResponses _ reviewId fun _ => beq_iff_eq.mp

/-- A lookup that a constraint backs raises nothing. -/
theorem scalarOneOrNone_rows (db : Db) {α : Type} (l : Lookup α) (hl : ¬ l.ByDomain) :
    scalarOneOrNone (l.rows db) = .ok (l.rows db).head? := by
  have hle := length_rows_le db l hl
  match l.rows db, hle with
  | [], _ => rfl
  | [_], _ => rfl

/-- Such a lookup that selects a row gives it. -/
theorem scalarOneOrNone_of_mem {db : Db} {α : Type} {l : Lookup α} {a : α} (hl : ¬ l.ByDomain)
    (h : a ∈ l.rows db) : scalarOneOrNone (l.rows db) = .ok (some a) := by
  have hle := length_rows_le db l hl
  match hrows : l.rows db, hle with
  | [], _ =>
    rw [hrows] at h
    cases h
  | [b], _ =>
    rw [hrows] at h
    rw [List.mem_singleton.mp h]
    rfl

/-- Rows that are all equal, in a list without repeats. -/
theorem length_le_one_iff {α : Type} {l : List α} (hnodup : l.Nodup) :
    l.length ≤ 1 ↔ ∀ a ∈ l, ∀ b ∈ l, a = b := by
  constructor
  · intro h a ha b hb
    match l with
    | [c] => rw [List.mem_singleton.mp ha, List.mem_singleton.mp hb]
    | [] => cases ha
  · intro h
    match l with
    | [] => exact Nat.zero_le _
    | [_] => exact Nat.le_refl _
    | a :: b :: _ =>
      have hab := h a List.mem_cons_self b (List.mem_cons_of_mem _ List.mem_cons_self)
      exact absurd (hab ▸ List.mem_cons_self) (List.nodup_cons.mp hnodup).1

/-- The filter on the domain is backed by nothing. -/
theorem length_rows_domain_iff (db : Db) :
    (∀ h, ((Lookup.verifiedAccountByDomain h).rows db).length ≤ 1) ↔
      OneVerifiedAccountPerDomain db := by
  have hmem : ∀ h a, a ∈ (db.employerAccounts.select fun a => a.domainHash == h && a.verified) ↔
      a ∈ db.employerAccounts.rows ∧ a.domainHash = h ∧ a.verified = true := by
    intro h a
    rw [db.employerAccounts.mem_select, Bool.and_eq_true, beq_iff_eq]
  have hiff := fun h => length_le_one_iff
    (db.employerAccounts.nodup.filter fun a => a.domainHash == h && a.verified)
  constructor
  · intro hall a ha b hb hav hbv hab
    exact (hiff b.domainHash).mp (hall b.domainHash) a ((hmem _ a).mpr ⟨ha, hab, hav⟩) b
      ((hmem _ b).mpr ⟨hb, rfl, hbv⟩)
  · intro hone h
    refine (hiff h).mpr fun a ha b hb => ?_
    obtain ⟨ha, hah, hav⟩ := (hmem h a).mp ha
    obtain ⟨hb, hbh, hbv⟩ := (hmem h b).mp hb
    exact hone a ha b hb hav hbv (hah.trans hbh.symm)

end LinkedOut
