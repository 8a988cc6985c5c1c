/-
  The four public lists, page by page: layoff events and reviews of a company,
  corroborations of a review, the takedown log.

  Each page is a query of its own, ordered by a column that is not unique and by nothing
  else, so the engine orders equal keys anew on every page (`place` of that request).
  `pages_partition_iff`: the pages at the offsets 0, `limit`, 2 * `limit`, … show every
  matching row exactly once, whatever those orders, exactly when no rows with equal keys lie
  across a page boundary. `shared_date_breaks` is a list where they do.
-/
import LinkedOut.Paging
import LinkedOut.Api

namespace LinkedOut

/-- A list endpoint's query: the rows that match, and the column they are ordered by. -/
structure ListQuery (α : Type) where
  rows : Db → List α
  ident : α → Uuid
  key : α → Time

def layoffEventsOf (companyId : Uuid) : ListQuery LayoffEvent where
  rows db := db.layoffEvents.select fun e => e.companyId == companyId && e.status == .published
  ident := LayoffEvent.id
  key := LayoffEvent.eventDate

def reviewsOf (companyId : Uuid) : ListQuery Review where
  rows db := db.reviews.select fun r => r.companyId == companyId && r.status == .published
  ident := Review.id
  key := Review.createdAt

def corroborationRowsOf (reviewId : Uuid) : ListQuery Corroboration where
  rows db := db.corroborations.select fun c => c.reviewId == reviewId
  ident := Corroboration.id
  key := Corroboration.createdAt

def takedownEntries : ListQuery TakedownLogEntry where
  rows db := db.takedownLogEntries.select fun _ => true
  ident := TakedownLogEntry.id
  key := TakedownLogEntry.createdAt

namespace ListQuery

variable {α β : Type} (q : ListQuery α)

/-- The request for page `k`. -/
def pageAt (limit k : Nat) : Page := ⟨limit, (k * limit : Nat)⟩

/-- The rows that the request for page `k` shows, with what it draws. -/
def page (limit : Nat) (db : Db) (d : Draws) (k : Nat) : List α :=
  (pageAt limit k).slice (orderDesc (fun a => d.place 0 (q.ident a)) q.key (q.rows db))

/-- The pages up to the one at the offset `total` show every matching row exactly once,
    whatever each request draws. -/
def Partitions (limit : Nat) (db : Db) : Prop :=
  ∀ draws : Nat → Draws, ((List.range ((q.rows db).length / limit + 1)).flatMap fun k =>
    q.page limit db (draws k) k).Perm (q.rows db)

/-- No matching rows with equal keys lie on both sides of a page boundary: with `ahead` rows
    that have a greater key and `behind` that have no smaller one, a multiple of `limit` is
    never strictly between them. -/
def NoTieAcross (limit : Nat) (db : Db) : Prop := Paging.NoTieAcross q.key (q.rows db) limit

/-- What `answer` gives on every page, and when the pages partition. -/
structure Paged (read : α → β) (answer : Draws → Page → Except HttpException (Paginated β))
    (limit : Nat) (db : Db) : Prop where
  answers : ∀ d k, answer d (pageAt limit k) = .ok {
    items := (q.page limit db d k).map read
    total := (q.rows db).length
    limit := limit
    offset := (k * limit : Nat) }
  partitions_iff : q.Partitions limit db ↔ q.NoTieAcross limit db

theorem check_pageAt {limit : Nat} (h1 : 1 ≤ limit) (h100 : limit ≤ 100) (k : Nat) :
    (pageAt limit k).check = .ok () := by
  have hlow : decide (1 ≤ (limit : Int)) = true := decide_eq_true (by omega)
  have hhigh : decide ((limit : Int) ≤ maxPageSize) = true :=
    decide_eq_true (by unfold maxPageSize; omega)
  have hoffset : decide (0 ≤ ((k * limit : Nat) : Int)) = true :=
    decide_eq_true (Int.natCast_nonneg _)
  unfold Page.check pageAt validate
  rw [hlow, hhigh, hoffset]
  rfl

theorem page_eq (limit : Nat) (db : Db) (d : Draws) (k : Nat) :
    q.page limit db d k =
      Paging.pageRows q.key limit (q.rows db) (fun a => d.place 0 (q.ident a)) k := by
  unfold page Paging.pageRows pageAt Page.slice
  rw [Int.toNat_natCast, Int.toNat_natCast]

theorem partitions_iff_noTie {limit : Nat} (h1 : 1 ≤ limit) (db : Db) (hnodup : (q.rows db).Nodup)
    (hident : ∀ a ∈ q.rows db, ∀ b ∈ q.rows db, q.ident a = q.ident b → a = b) :
    q.Partitions limit db ↔ q.NoTieAcross limit db := by
  have hn : (q.rows db).length ≤ ((q.rows db).length / limit + 1) * limit := by
    rw [Nat.succ_mul]
    have hdiv := Nat.div_add_mod (q.rows db).length limit
    have hmod := Nat.mod_lt (q.rows db).length h1
    rw [Nat.mul_comm] at hdiv
    omega
  unfold Partitions NoTieAcross
  rw [← Paging.pages_perm_iff hident h1 hnodup hn]
  simp only [page_eq]
  constructor
  · intro hall places
    exact hall fun k => { now := fun _ => 0, uuid := id, place := fun _ => places k }
  · intro hall draws
    exact hall fun k => (draws k).place 0

/-- Rows of one table under a filter have distinct primary keys. -/
theorem partitions_iff_of_select [Record α] {limit : Nat} (h1 : 1 ≤ limit) (db : Db) {t : Table α}
    {p : α → Bool} (hrows : q.rows db = t.select p) (hident : ∀ a, q.ident a = pk a) :
    q.Partitions limit db ↔ q.NoTieAcross limit db := by
  refine q.partitions_iff_noTie h1 db ?_ fun a ha b hb hab => ?_
  · rw [hrows]
    exact t.nodup.filter p
  · rw [hrows] at ha hb
    rw [hident, hident] at hab
    exact t.eq_of_pk (List.mem_of_mem_filter ha) (List.mem_of_mem_filter hb) hab

end ListQuery

open ListQuery

/-- On every page each list answers with the query's rows and their total, and the pages show
    every matching row exactly once, whatever order the engine gives equal keys on each, if
    and only if no rows with equal keys lie across a page boundary. -/
theorem pages_partition_iff (db : Db) (limit : Nat) (h1 : 1 ≤ limit) (h100 : limit ≤ 100) :
    (∀ companyId, (layoffEventsOf companyId).Paged LayoffEvent.read
      (fun d page => listCompanyLayoffEvents d.env companyId page db) limit db) ∧
    (∀ companyId, (reviewsOf companyId).Paged Review.read
      (fun d page => listCompanyReviews d.env companyId page db) limit db) ∧
    (∀ reviewId, (db.reviews.find? reviewId).isSome →
      (corroborationRowsOf reviewId).Paged Corroboration.read
        (fun d page => listCorroborations d.env reviewId page db) limit db) ∧
    takedownEntries.Paged id (fun d page => listTakedownLog d.env page db) limit db := by
  have hcheck := fun k => check_pageAt h1 h100 k
  refine ⟨fun companyId => ⟨fun d k => ?_, ?_⟩, fun companyId => ⟨fun d k => ?_, ?_⟩,
    fun reviewId hfound => ⟨fun d k => ?_, ?_⟩, ⟨fun d k => ?_, ?_⟩⟩
  · unfold listCompanyLayoffEvents
    rw [hcheck k]
    rfl
  · exact partitions_iff_of_select _ h1 db rfl fun _ => rfl
  · unfold listCompanyReviews
    rw [hcheck k]
    rfl
  · exact partitions_iff_of_select _ h1 db rfl fun _ => rfl
  · obtain ⟨r, hr⟩ := Option.isSome_iff_exists.mp hfound
    unfold listCorroborations
    rw [hcheck k, scalarOneOrNone_pk, hr]
    rfl
  · exact partitions_iff_of_select _ h1 db rfl fun _ => rfl
  · unfold listTakedownLog
    rw [hcheck k]
    rfl
  · exact partitions_iff_of_select _ h1 db rfl fun _ => rfl

/-- Two layoffs announced on one day. -/
def sharedDateDb : Db :=
  { smallDb with
    layoffEvents := ⟨[⟨20, 5, 0, none, some 100, .selfReported, none, some 1, .published, none, 1⟩,
      ⟨21, 5, 0, none, some 50, .selfReported, none, some 2, .published, none, 2⟩], by decide⟩ }

theorem sharedDateDb_paged :
    (layoffEventsOf 5).Paged LayoffEvent.read
      (fun d page => listCompanyLayoffEvents d.env 5 page sharedDateDb) 1 sharedDateDb :=
  (pages_partition_iff sharedDateDb 1 (by decide) (by decide)).1 5

/-- The first page has event 20 first, the second has it second: both show it. -/
theorem shared_date_breaks :
    ¬ ∀ (db : Db) (companyId : Uuid) (limit : Nat), 1 ≤ limit → limit ≤ 100 →
      (layoffEventsOf companyId).Partitions limit db := by
  intro hall
  have hperm := hall sharedDateDb 5 1 (by decide) (by decide) fun k =>
    { drawsAt 0 0 with place := fun _ x => if k = 0 then x else 100 - x }
  revert hperm
  decide +kernel

end LinkedOut
