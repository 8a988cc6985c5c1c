/-
  The moderation queue: two tables merged into one feed and cut into pages.

  `mergedQueue` takes the rows of the two queries in any order (`place`). `IsQueueOf` says
  what the feed has to be whatever that order is: every pending item once, flagged items
  first, oldest first among the flagged and among the others. `moderation_queue`: it is, a
  page is a slice of it and `total` its length, and over queries that keep their order the
  pages put together are the feed.
-/
import LinkedOut.Lists

namespace LinkedOut

def pendingReviews (db : Db) : List Review := db.reviews.select fun r => r.status == .pending

def pendingLayoffEvents (db : Db) : List LayoffEvent :=
  db.layoffEvents.select fun e => e.status == .pending

def ModerationQueueEntry.flagged (e : ModerationQueueEntry) : Bool := e.flaggedReason.isSome

/-- A feed of everything that waits for moderation. -/
structure IsQueueOf (db : Db) (entries : List ModerationQueueEntry) : Prop where
  complete : entries.Perm ((pendingReviews db).map Review.queueEntry ++
    (pendingLayoffEvents db).map LayoffEvent.queueEntry)
  once : (entries.map fun e => (e.itemType, e.itemId)).Nodup
  flagged_first : entries.Pairwise fun a b => b.flagged = true → a.flagged = true
  oldest_first : entries.Pairwise fun a b => a.flagged = b.flagged → a.createdAt ≤ b.createdAt

/-! ## The sort key -/

instance : Std.Total queueOrder where
  total a b := by
    unfold queueOrder
    rcases lt_trichotomy a.flaggedReason.isNone b.flaggedReason.isNone with h | h | h
    · exact Or.inl (Or.inl h)
    · exact (le_total a.createdAt b.createdAt).imp (fun hle => Or.inr ⟨h, hle⟩)
        fun hle => Or.inr ⟨h.symm, hle⟩
    · exact Or.inr (Or.inl h)

instance : IsTrans ModerationQueueEntry queueOrder where
  trans a b c := by
    unfold queueOrder
    rintro (hab | ⟨hab, hab'⟩) (hbc | ⟨hbc, hbc'⟩)
    · exact Or.inl (hab.trans hbc)
    · exact Or.inl (hbc ▸ hab)
    · exact Or.inl (hab ▸ hbc)
    · exact Or.inr ⟨hab.trans hbc, hab'.trans hbc'⟩

theorem queueOrder_flagged {a b : ModerationQueueEntry} (h : queueOrder a b)
    (hb : b.flagged = true) : a.flagged = true := by
  unfold ModerationQueueEntry.flagged at hb ⊢
  rw [← Option.not_isNone, Bool.not_eq_true'] at hb ⊢
  rcases h with h | ⟨h, -⟩
  · exact (Bool.lt_iff.mp h).1
  · exact h.trans hb

theorem queueOrder_createdAt {a b : ModerationQueueEntry} (h : queueOrder a b)
    (hab : a.flagged = b.flagged) : a.createdAt ≤ b.createdAt := by
  unfold ModerationQueueEntry.flagged at hab
  rw [← Option.not_isNone, ← Option.not_isNone, Bool.not_inj_iff] at hab
  rcases h with h | ⟨-, h⟩
  · exact absurd h (hab ▸ lt_irrefl _)
  · exact h

/-! ## The feed -/

theorem mergedQueue_perm (place : Nat → Uuid → Nat) (db : Db) :
    (mergedQueue place db).Perm ((pendingReviews db).map Review.queueEntry ++
      (pendingLayoffEvents db).map LayoffEvent.queueEntry) :=
  (List.perm_insertionSort _ _).trans
    (((perm_orderAsc _ _ _).map _).append ((perm_orderAsc _ _ _).map _))

/-- No two pending items have the same type and id. -/
theorem pendingItems_nodup (db : Db) :
    (((pendingReviews db).map Review.queueEntry ++
      (pendingLayoffEvents db).map LayoffEvent.queueEntry).map
        fun e => (e.itemType, e.itemId)).Nodup := by
  rw [List.map_append, List.map_map, List.map_map]
  refine List.nodup_append.mpr ⟨?_, ?_, ?_⟩
  · refine List.pairwise_map.mpr ((db.reviews.distinct.filter _).imp fun {a b} hab heq => ?_)
    rw [Record.clash_of_pk a b (congrArg Prod.snd heq)] at hab
    cases hab
  · refine List.pairwise_map.mpr ((db.layoffEvents.distinct.filter _).imp fun {a b} hab heq => ?_)
    rw [Record.clash_of_pk a b (congrArg Prod.snd heq)] at hab
    cases hab
  · intro x hx y hy hxy
    obtain ⟨r, -, rfl⟩ := List.mem_map.mp hx
    obtain ⟨e, -, rfl⟩ := List.mem_map.mp hy
    cases congrArg Prod.fst hxy

theorem mergedQueue_isQueueOf (place : Nat → Uuid → Nat) (db : Db) :
    IsQueueOf db (mergedQueue place db) := by
  have hsorted : (mergedQueue place db).Pairwise queueOrder := List.pairwise_insertionSort _ _
  have hperm := mergedQueue_perm place db
  exact ⟨hperm, (hperm.map _).nodup_iff.mpr (pendingItems_nodup db),
    hsorted.imp queueOrder_flagged, hsorted.imp queueOrder_createdAt⟩

theorem length_mergedQueue (place : Nat → Uuid → Nat) (db : Db) :
    (mergedQueue place db).length =
      (pendingReviews db).length + (pendingLayoffEvents db).length := by
  rw [(mergedQueue_perm place db).length_eq, List.length_append, List.length_map, List.length_map]

/-- Any two orders of the rows are those of the queries under some `place`. -/
theorem exists_place_mergedQueue {db : Db} {reviews : List Review} {events : List LayoffEvent}
    (hreviews : reviews.Perm (pendingReviews db))
    (hevents : events.Perm (pendingLayoffEvents db)) :
    ∃ place, mergedQueue place db = (reviews.map Review.queueEntry ++
      events.map LayoffEvent.queueEntry).insertionSort queueOrder := by
  have hids := pendingItems_nodup db
  rw [List.map_append, List.map_map, List.map_map] at hids
  obtain ⟨hreviewIds, heventIds, -⟩ := List.nodup_append.mp hids
  have hall : ∀ {γ : Type} (l : List γ), l.Pairwise fun _ _ => (0 : Int) ≤ 0 :=
    fun _ => List.pairwise_of_forall fun _ _ => le_rfl
  obtain ⟨first, hfirst⟩ := Paging.exists_place_orderAsc hreviews (hall _)
    (List.Nodup.of_map (Prod.mk ModeratedItemType.review) (by rwa [List.map_map]))
  obtain ⟨second, hsecond⟩ := Paging.exists_place_orderAsc hevents (hall _)
    (List.Nodup.of_map (Prod.mk ModeratedItemType.layoffEvent) (by rwa [List.map_map]))
  refine ⟨fun q => if q = 0 then first else second, ?_⟩
  unfold mergedQueue
  dsimp only
  rw [if_pos rfl, if_neg Nat.one_ne_zero]
  exact congrArg₂ (fun rows rows' => (List.map Review.queueEntry rows ++
    List.map LayoffEvent.queueEntry rows').insertionSort queueOrder) hfirst hsecond

/-- What an admin is answered. -/
theorem getModerationQueue_ok {p : Platform} {env : Env} {page : Page} {token : Option String}
    {db : Db} {admin : AdminUser} (hadmin : getCurrentAdmin p env token db = .ok admin)
    (hpage : page.check = .ok ()) :
    getModerationQueue p env page token db = .ok {
      items := ((mergedQueue env.place db).drop page.offset.toNat).take page.limit.toNat
      total := (pendingReviews db).length + (pendingLayoffEvents db).length
      limit := page.limit
      offset := page.offset } := by
  unfold getModerationQueue
  rw [hadmin, hpage, ok_bind, ok_bind, ← length_mergedQueue env.place db]
  unfold paginate Page.slice
  dsimp only
  rw [List.map_id]
  rfl

/-- For every order in which the two queries return their rows: the feed is complete and in
    order of priority, the answer to an admin is a slice of it with the number of pending
    items, and pages taken while the queries keep their order are the feed. -/
theorem moderation_queue (p : Platform) (db : Db) :
    (∀ (reviews : List Review) (events : List LayoffEvent),
      reviews.Perm (pendingReviews db) → events.Perm (pendingLayoffEvents db) →
        ∃ place, mergedQueue place db = (reviews.map Review.queueEntry ++
          events.map LayoffEvent.queueEntry).insertionSort queueOrder) ∧
    (∀ place, IsQueueOf db (mergedQueue place db)) ∧
    (∀ (env : Env) (page : Page) (token : Option String) (admin : AdminUser),
      getCurrentAdmin p env token db = .ok admin → page.check = .ok () →
        getModerationQueue p env page token db = .ok {
          items := ((mergedQueue env.place db).drop page.offset.toNat).take page.limit.toNat
          total := (pendingReviews db).length + (pendingLayoffEvents db).length
          limit := page.limit
          offset := page.offset }) ∧
    ∀ (place : Nat → Uuid → Nat) (limit n : Nat) (envs : Nat → Env)
      (tokens : Nat → Option String), 1 ≤ limit → limit ≤ 100 →
      (pendingReviews db).length + (pendingLayoffEvents db).length ≤ n * limit →
      (∀ k, (envs k).place = place ∧ (getCurrentAdmin p (envs k) (tokens k) db).isOk = true) →
        ∃ pages : Nat → Paginated ModerationQueueEntry,
          (∀ k, getModerationQueue p (envs k) (ListQuery.pageAt limit k) (tokens k) db =
            .ok (pages k)) ∧
          ((List.range n).flatMap fun k => (pages k).items) = mergedQueue place db := by
  refine ⟨fun _ _ => exists_place_mergedQueue, fun place => mergedQueue_isQueueOf place db,
    fun _ _ _ _ => getModerationQueue_ok, ?_⟩
  intro place limit n envs tokens h1 h100 hn hall
  refine ⟨fun k => {
    items := ((mergedQueue place db).drop (k * limit)).take limit
    total := (pendingReviews db).length + (pendingLayoffEvents db).length
    limit := limit
    offset := (k * limit : Nat) }, fun k => ?_, ?_⟩
  · obtain ⟨hplace, hok⟩ := hall k
    obtain ⟨admin, hadmin⟩ : ∃ admin, getCurrentAdmin p (envs k) (tokens k) db = .ok admin := by
      cases h : getCurrentAdmin p (envs k) (tokens k) db with
      | error e => rw [h] at hok; cases hok
      | ok admin => exact ⟨admin, rfl⟩
    rw [getModerationQueue_ok hadmin (ListQuery.check_pageAt h1 h100 k), hplace]
    rfl
  · rw [Paging.flatMap_slices, List.take_of_length_le]
    rw [length_mergedQueue]
    exact hn

/-- A flagged review among an unflagged one and an older event. -/
def queueDb : Db :=
  { smallDb with
    reviews := ⟨[⟨30, 1, 5, .culture, .oneTo3yr, "ops", .ic, true, "fine", .pending, none, 4⟩,
      ⟨31, 2, 5, .management, .oneTo3yr, "ops", .ic, true, "Anita Desai", .pending, some "name", 6⟩],
      by decide⟩
    layoffEvents := ⟨[⟨20, 5, 0, none, none, .selfReported, none, some 1, .pending, none, 2⟩],
      by decide⟩ }

theorem queueDb_paged : ∃ pages : Nat → Paginated ModerationQueueEntry,
    (∀ k, getModerationQueue smallPlatform (drawsAt 60000000 0).env (ListQuery.pageAt 2 k)
      (some "root") queueDb = .ok (pages k)) ∧
    ((List.range 2).flatMap fun k => (pages k).items) = mergedQueue (fun _ _ => 0) queueDb :=
  (moderation_queue smallPlatform queueDb).2.2.2 (fun _ _ => 0) 2 2
    (fun _ => (drawsAt 60000000 0).env) (fun _ => some "root") (by decide) (by decide) (by decide)
    fun _ => ⟨rfl, by decide +kernel⟩

end LinkedOut
