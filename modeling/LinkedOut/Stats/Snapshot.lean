/-
  One `compute_company_stats` call among approve requests that are under way.

  The statements of the call are separate; between two of them any number of approve
  sessions load and commit. `stats_consistent_iff`: every full payload is consistent
  (the counts of each distribution sum to the total, its percentages to 100.0) exactly
  when the company has too few published reviews, or no approval of one of its reviews
  is committed between the count and the last grouped count. `torn_breaks` is such a
  payload.
-/
import LinkedOut.Stats
import LinkedOut.Moderation.Race

namespace LinkedOut

/-! ## The interleavings -/

/-- An approve request on the moderation queue. -/
structure ApproveCall where
  itemType : ModeratedItemType
  itemId : Uuid
  token : Option String

def ApproveCall.decision (call : ApproveCall) : DecisionCall :=
  .approveItem call.itemType call.itemId call.token

section

variable {ι : Type} [DecidableEq ι] (p : Platform) (calls : ι → ApproveCall)

/-- The machine of the approve sessions. -/
abbrev approvals : Machine (ι × Draws) (Conf ι Server Deciding) (List (Success ι)) :=
  interleave (decideStep p fun i => (calls i).decision)

/-- The sessions when statement `n` runs; `gaps n` is what they do right before it. -/
def confAt (gaps : Nat → List (ι × Draws)) (s : Server) : Nat → Conf ι Server Deciding
  | 0 => (approvals p calls).exec (gaps 0) ⟨s, fun _ => .idle⟩
  | n + 1 => (approvals p calls).exec (gaps (n + 1)) (confAt gaps s n)

/-- What statement `n` reads. -/
def viewAt (gaps : Nat → List (ι × Draws)) (s : Server) (n : Nat) : Db :=
  (confAt p calls gaps s n).shared.db

/-- The step takes a review of the company from PENDING to PUBLISHED. -/
def Publishes (companyId : Uuid) (c : Conf ι Server Deciding) (e : ι × Draws) : Prop :=
  ∃ r, r.companyId = companyId ∧ r.status = .pending ∧ c.shared.db.reviews.find? r.id = some r ∧
    (((approvals p calls).step e c).2.shared.db.reviews.find? r.id).map Review.status =
      some .published

/-- No approval of a review of the company is committed between the count (statement 0)
    and the last grouped count (statement 4). -/
def Quiet (gaps : Nat → List (ι × Draws)) (s : Server) (companyId : Uuid) : Prop :=
  ∀ n < 4, (approvals p calls).Along (fun c e => ¬ Publishes p calls companyId c e)
    (gaps (n + 1)) (confAt p calls gaps s n)

/-! ## What an approve session does to the reviews -/

/-- What an approve session holds: the approval of an item, and a review among these is
    stored and was not rejected. -/
def HoldsApproval (db : Db) (l : Loaded) : Prop :=
  ∃ adminId itemType itemId row, l = .item adminId itemType itemId row approval ∧
    ∀ r, row = .review r → ∃ r', db.reviews.find? r.id = some r' ∧ r'.status ≠ .rejected

/-- Every session holds an approval. -/
def AllHold (c : Conf ι Server Deciding) : Prop :=
  ∀ i l, c.sess i = .loaded l → HoldsApproval c.shared.db l

theorem load_approval {env : Env} {call : ApproveCall} {db : Db} {l : Loaded}
    (h : call.decision.load p env db = .ok l) : HoldsApproval db l := by
  obtain ⟨admin, _, h1⟩ := bind_ok h
  obtain ⟨row, hrow, h2⟩ := bind_ok h1
  cases h2
  refine ⟨_, _, _, row, rfl, fun r hr => ?_⟩
  rcases loadItem_ok hrow with ⟨-, r', hr', hfind, hpending⟩ | ⟨-, e, he, -⟩
  · rw [hr'] at hr
    cases hr
    have hid : r.id = call.itemId := ((db.reviews.find?_eq_some _ _).mp hfind).2
    exact ⟨r, hid ▸ hfind, by rw [hpending]; decide⟩
  · rw [he] at hr
    cases hr

theorem count_eq_of_reviews {db db' : Db} (h : db'.reviews = db.reviews) (companyId : Uuid) :
    countPublishedReviews db' companyId = countPublishedReviews db companyId := by
  unfold countPublishedReviews publishedReviews
  rw [h]

/-- Publishing a pending review of the company is one published review more. -/
theorem count_publish_pending {db db' : Db} {r : Review} {companyId : Uuid}
    (h : db'.reviews = db.reviews.update r.id (Review.setStatus .published))
    (hfind : db.reviews.find? r.id = some r)
    (hnew : r.companyId = companyId ∧ r.status = .pending) :
    countPublishedReviews db' companyId = countPublishedReviews db companyId + 1 := by
  unfold countPublishedReviews publishedReviews
  rw [h, Table.length_select_update_succ _ hfind]
  · simp [hnew.2]
  · simp [Review.setStatus, hnew.1]

/-- Publishing a review that is published already, or another company's, changes no count. -/
theorem count_publish_other {db db' : Db} {r : Review} {companyId : Uuid}
    (h : db'.reviews = db.reviews.update r.id (Review.setStatus .published))
    (hfind : db.reviews.find? r.id = some r) (hne : r.status ≠ .rejected)
    (hold : ¬ (r.companyId = companyId ∧ r.status = .pending)) :
    countPublishedReviews db' companyId = countPublishedReviews db companyId := by
  unfold countPublishedReviews publishedReviews
  rw [h, Table.length_select_update]
  intro q hq hid
  have hqr : q = r := db.reviews.eq_of_pk hq ((db.reviews.find?_eq_some _ _).mp hfind).1 hid
  rw [hqr]
  cases hs : r.status with
  | pending =>
    have hother : r.companyId ≠ companyId := fun h => hold ⟨h, hs⟩
    simp [Review.setStatus, hother]
  | published => simp [Review.setStatus]
  | rejected => exact absurd hs hne

/-- A step leaves the reviews alone, or publishes a review that is stored and was not
    rejected. -/
theorem approval_reviews (c : Conf ι Server Deciding) (hc : AllHold c) (e : ι × Draws) :
    ((approvals p calls).step e c).2.shared.db.reviews = c.shared.db.reviews ∨
      ∃ r, c.shared.db.reviews.find? r.id = some r ∧ r.status ≠ .rejected ∧
        ((approvals p calls).step e c).2.shared.db.reviews =
          c.shared.db.reviews.update r.id (Review.setStatus .published) := by
  obtain ⟨i, d⟩ := e
  show (decideStep p _ i d c.shared (c.sess i)).2.1.db.reviews = _ ∨ ∃ r, _ ∧ _ ∧
    (decideStep p _ i d c.shared (c.sess i)).2.1.db.reviews = _
  cases hi : c.sess i with
  | idle =>
    refine Or.inl ?_
    simp only [decideStep]
    split <;> rfl
  | finished => exact Or.inl rfl
  | loaded l =>
    obtain ⟨adminId, itemType, itemId, row, rfl, hrow⟩ := hc i l hi
    simp only [decideStep]
    cases hcommit : commit d.env
        ((Loaded.item adminId itemType itemId row approval).flush d.env c.shared.db)
        internalServerError with
    | error e => exact Or.inl rfl
    | ok db =>
      obtain ⟨log, -, hdb⟩ := flushDecision_some (commit_ok hcommit).1
      cases row with
      | layoffEvent e => exact Or.inl (by rw [hdb]; rfl)
      | review r =>
        obtain ⟨r', hfind, hne⟩ := hrow r rfl
        have hid : r'.id = r.id := ((c.shared.db.reviews.find?_eq_some _ _).mp hfind).2
        exact Or.inr ⟨r', hid ▸ hfind, hne, by rw [hdb, hid]; rfl⟩

/-- Published reviews stay published, so nobody's approval is lost. -/
theorem allHold_step (c : Conf ι Server Deciding) (hc : AllHold c) (e : ι × Draws) :
    AllHold ((approvals p calls).step e c).2 := by
  have hkeep : ∀ id r, c.shared.db.reviews.find? id = some r → r.status ≠ .rejected →
      ∃ r', ((approvals p calls).step e c).2.shared.db.reviews.find? id = some r' ∧
        r'.status ≠ .rejected := by
    intro id r hr hne
    rcases approval_reviews p calls c hc e with heq | ⟨q, -, -, heq⟩
    · exact ⟨r, by rw [heq]; exact hr, hne⟩
    · rw [heq, Table.find?_update]
      split
      · refine ⟨_, by rw [hr]; rfl, ?_⟩
        exact fun h => by cases h
      · exact ⟨r, hr, hne⟩
  intro j l hj
  obtain ⟨i, d⟩ := e
  have hold : HoldsApproval c.shared.db l := by
    rcases sess_loaded hj with ⟨-, hold⟩ | ⟨-, -, hload⟩
    · exact hc j l hold
    · exact load_approval p hload
  obtain ⟨adminId, itemType, itemId, row, hl, hrow⟩ := hold
  refine ⟨adminId, itemType, itemId, row, hl, fun r hr => ?_⟩
  obtain ⟨r', hfind, hne⟩ := hrow r hr
  exact hkeep r.id r' hfind hne

/-- A step publishes a review of the company and the count grows by one, or it does neither. -/
theorem count_step (companyId : Uuid) (c : Conf ι Server Deciding) (hc : AllHold c)
    (e : ι × Draws) :
    (Publishes p calls companyId c e ∧
      countPublishedReviews ((approvals p calls).step e c).2.shared.db companyId =
        countPublishedReviews c.shared.db companyId + 1) ∨
    (¬ Publishes p calls companyId c e ∧
      countPublishedReviews ((approvals p calls).step e c).2.shared.db companyId =
        countPublishedReviews c.shared.db companyId) := by
  rcases approval_reviews p calls c hc e with heq | ⟨r, hfind, hne, heq⟩
  · refine Or.inr ⟨?_, count_eq_of_reviews heq companyId⟩
    rintro ⟨q, -, hpending, hq, hafter⟩
    rw [heq, hq, Option.map_some, hpending] at hafter
    cases hafter
  · have hafter : (((approvals p calls).step e c).2.shared.db.reviews.find? r.id).map
        Review.status = some .published := by
      rw [heq, Table.find?_update_self _ _ hfind]; rfl
    by_cases hnew : r.companyId = companyId ∧ r.status = .pending
    · exact Or.inl ⟨⟨r, hnew.1, hnew.2, hfind, hafter⟩, count_publish_pending heq hfind hnew⟩
    · refine Or.inr ⟨?_, count_publish_other heq hfind hne hnew⟩
      rintro ⟨q, hcompany, hpending, hq, hpub⟩
      rw [heq, Table.find?_update] at hpub
      split at hpub
      · rename_i hid
        rw [hid, hfind] at hq
        cases hq
        exact hnew ⟨hcompany, hpending⟩
      · rw [hq, Option.map_some, hpending] at hpub
        cases hpub

/-- Over a gap the count grows, and it stays exactly when nothing is published. -/
theorem count_gap (companyId : Uuid) (gap : List (ι × Draws)) (c : Conf ι Server Deciding)
    (hc : AllHold c) :
    AllHold ((approvals p calls).exec gap c) ∧
    countPublishedReviews c.shared.db companyId ≤
      countPublishedReviews ((approvals p calls).exec gap c).shared.db companyId ∧
    ((approvals p calls).Along (fun c e => ¬ Publishes p calls companyId c e) gap c ↔
      countPublishedReviews ((approvals p calls).exec gap c).shared.db companyId =
        countPublishedReviews c.shared.db companyId) := by
  induction gap generalizing c with
  | nil => exact ⟨hc, le_refl _, fun _ => rfl, fun _ => trivial⟩
  | cons e gap ih =>
    obtain ⟨hhold, hle, hiff⟩ := ih _ (allHold_step p calls c hc e)
    refine ⟨hhold, ?_⟩
    simp only [Machine.Along, Machine.exec, hiff]
    rcases count_step p calls companyId c hc e with ⟨hpub, hcount⟩ | ⟨hpub, hcount⟩
    · rw [hcount] at hle ⊢
      exact ⟨by omega, fun h => absurd hpub h.1, fun h => by omega⟩
    · rw [hcount] at hle ⊢
      exact ⟨hle, fun h => h.2, fun h => ⟨hpub, h⟩⟩

theorem allHold_confAt (gaps : Nat → List (ι × Draws)) (s : Server) (n : Nat) :
    AllHold (confAt p calls gaps s n) := by
  induction n with
  | zero => exact (count_gap p calls 0 (gaps 0) _ fun i l hl => by cases hl).1
  | succ n ih => exact (count_gap p calls 0 (gaps (n + 1)) _ ih).1

/-- The count at the last grouped count is the first count exactly when it was quiet, and
    greater otherwise; when it was quiet every count in between is the same. -/
theorem quiet_iff (gaps : Nat → List (ι × Draws)) (s : Server) (companyId : Uuid) :
    (Quiet p calls gaps s companyId → ∀ n ≤ 4,
      countPublishedReviews (viewAt p calls gaps s n) companyId =
        countPublishedReviews (viewAt p calls gaps s 0) companyId) ∧
    (countPublishedReviews (viewAt p calls gaps s 4) companyId =
      countPublishedReviews (viewAt p calls gaps s 0) companyId →
        Quiet p calls gaps s companyId) := by
  have hgap := fun n => (count_gap p calls companyId (gaps (n + 1)) _
    (allHold_confAt p calls gaps s n)).2
  have hmono : Monotone fun n => countPublishedReviews (viewAt p calls gaps s n) companyId :=
    monotone_nat_of_le_succ fun n => (hgap n).1
  have hsame : ∀ n, (approvals p calls).Along (fun c e => ¬ Publishes p calls companyId c e)
      (gaps (n + 1)) (confAt p calls gaps s n) ↔
      countPublishedReviews (viewAt p calls gaps s (n + 1)) companyId =
        countPublishedReviews (viewAt p calls gaps s n) companyId := fun n => (hgap n).2
  constructor
  · intro hquiet n hn
    induction n with
    | zero => rfl
    | succ n ih => rw [(hsame n).mp (hquiet n (by omega)), ih (by omega)]
  · intro h n hn
    rw [hsame n]
    -- squeezed between the first and the last count
    refine le_antisymm ((hmono hn).trans (h.le.trans (hmono (Nat.zero_le n)))) ?_
    exact hmono (Nat.le_succ n)

end

/-! ## The payload -/

/-- The counts sum to the total and the percentages to 100.0. -/
def SumsUp {κ : Type} (total : Nat) (distribution : List (κ × DistributionBucket)) : Prop :=
  (distribution.map fun b => b.2.count).sum = total ∧
    (distribution.map fun b => b.2.tenths).sum = 1000

/-- Each of the four distributions sums up. -/
def FullStats.Consistent (stats : FullStats) : Prop :=
  SumsUp stats.totalPublishedReviews stats.exitReasonDistribution ∧
  SumsUp stats.totalPublishedReviews stats.avgTenureBucket.distribution ∧
  SumsUp stats.totalPublishedReviews stats.currentVsFormerSplit ∧
  SumsUp stats.totalPublishedReviews stats.roleLevelDistribution

theorem sumsUp_of_sum {κ : Type} [DecidableEq κ] {counts : List (κ × Nat)} {total : Nat}
    (hpos : 0 < total) (hnodup : (counts.map Prod.fst).Nodup)
    (hsum : (counts.map Prod.snd).sum = total) :
    SumsUp total (distributionWithPercentages counts total) :=
  ⟨by rw [distribution_counts]; exact hsum, sum_tenths counts total hpos hnodup hsum⟩

theorem sumsUp_members {κ : Type} [DecidableEq κ] {members : List κ} (hnodup : members.Nodup)
    (hall : ∀ k, k ∈ members) {db : Db} {column : Review → κ} {companyId : Uuid} {total : Nat}
    (hpos : 0 < total) (hcount : countPublishedReviews db companyId = total) :
    SumsUp total (distributionWithPercentages
      (fullEnumCounts members (groupedCounts db column companyId)) total) := by
  refine sumsUp_of_sum hpos ?_ ?_
  · rw [keys_fullEnumCounts]; exact hnodup
  · rw [sum_fullEnumCounts members hnodup hall, hcount]

/-- With enough published reviews there is a full payload. -/
theorem exists_full (p : Platform) (view : Nat → Db) (companyId : Uuid)
    (hmin : ¬ countPublishedReviews (view 0) companyId < p.settings.statsMinPublishedReviews)
    (hpos : countPublishedReviews (view 0) companyId ≠ 0) :
    ∃ stats, computeCompanyStats p view companyId = .ok (.full stats) := by
  unfold computeCompanyStats
  dsimp only
  rw [if_neg hmin]
  split
  · rename_i hnone
    cases hnone
  · rw [if_neg hpos]
    exact ⟨_, rfl⟩

/-- For every interleaving of one stats call with any number of approve requests: every full
    payload is consistent if and only if the company has too few published reviews for one
    or no approval of one of its reviews is committed between the count and the last
    grouped count. -/
theorem stats_consistent_iff {ι : Type} [DecidableEq ι] (p : Platform) (calls : ι → ApproveCall)
    (gaps : Nat → List (ι × Draws)) (s : Server) (companyId : Uuid) :
    (∀ stats, computeCompanyStats p (viewAt p calls gaps s) companyId = .ok (.full stats) →
      stats.Consistent) ↔
    (countPublishedReviews (viewAt p calls gaps s 0) companyId <
        p.settings.statsMinPublishedReviews ∨
      countPublishedReviews (viewAt p calls gaps s 0) companyId = 0 ∨
      Quiet p calls gaps s companyId) := by
  obtain ⟨hquiet, hback⟩ := quiet_iff p calls gaps s companyId
  constructor
  · intro hall
    by_contra hnone
    simp only [not_or] at hnone
    obtain ⟨hmin, hzero, hloud⟩ := hnone
    obtain ⟨stats, hstats⟩ := exists_full p (viewAt p calls gaps s) companyId hmin hzero
    obtain ⟨-, -, htotal, -, -, -, -, hsplit⟩ := computeCompanyStats_full hstats
    -- the last grouped count would be the first count
    have hcounts := (hall stats hstats).2.2.1.1
    rw [hsplit, distribution_counts, sum_currentFormerCounts, htotal] at hcounts
    exact hloud (hback hcounts)
  · rintro (hmin | hzero | hq) stats hstats
    · exact absurd hmin (computeCompanyStats_full hstats).1
    · have hpos := (computeCompanyStats_full hstats).2.1
      rw [hzero] at hpos
      exact absurd hpos (lt_irrefl 0)
    · obtain ⟨-, hpos, htotal, hexit, -, htenure, hrole, hsplit⟩ :=
        computeCompanyStats_full hstats
      rw [← htotal] at hpos
      have hcount : ∀ n ≤ 4, countPublishedReviews (viewAt p calls gaps s n) companyId =
          stats.totalPublishedReviews := fun n hn => (hquiet hq n hn).trans htotal.symm
      refine ⟨?_, ?_, ?_, ?_⟩
      · rw [hexit]
        exact sumsUp_members ExitReason.members_nodup ExitReason.mem_members hpos
          (hcount 1 (by decide))
      · rw [htenure]
        exact sumsUp_members TenureBucket.members_nodup TenureBucket.mem_members hpos
          (hcount 2 (by decide))
      · rw [hsplit]
        refine sumsUp_of_sum hpos (by simp [currentFormerCounts]) ?_
        rw [sum_currentFormerCounts, hcount 4 (by decide)]
      · rw [hrole]
        exact sumsUp_members RoleLevel.members_nodup RoleLevel.mem_members hpos
          (hcount 3 (by decide))

/-- Six users, each with a review of the one company: five are published, the last pending. -/
def busyServer : Server :=
  .start { smallDb with
    users := ⟨(List.range 6).map fun i => ⟨11 + i, toString i, some "acme.com", .email⟩, by decide⟩
    reviews := ⟨(List.range 6).map fun i =>
      ⟨20 + i, 11 + i, 5, .culture, .oneTo3yr, "engineering", .ic, true, "long hours",
        if i < 5 then .published else .pending, none, 0⟩, by decide⟩ }

/-- Between the count and the first grouped count root approves the last review. -/
def tornGaps (n : Nat) : List (Unit × Draws) :=
  if n = 1 then [((), drawsAt 0 30), ((), drawsAt 1 30)] else []

/-- The payload then counts six reviews under a total of five. -/
theorem torn_breaks :
    ¬ ∀ (p : Platform) (calls : Unit → ApproveCall) (gaps : Nat → List (Unit × Draws)) (s : Server)
      (companyId : Uuid) (stats : FullStats),
      computeCompanyStats p (viewAt p calls gaps s) companyId = .ok (.full stats) →
        stats.Consistent := by
  intro hall
  have hcounts : countPublishedReviews (viewAt smallPlatform (fun _ => ⟨.review, 25, some "root"⟩)
      tornGaps busyServer 0) 5 = 5 ∧
    countPublishedReviews (viewAt smallPlatform (fun _ => ⟨.review, 25, some "root"⟩)
      tornGaps busyServer 4) 5 = 6 := by decide
  obtain ⟨stats, hstats⟩ := exists_full smallPlatform
    (viewAt smallPlatform (fun _ => ⟨.review, 25, some "root"⟩) tornGaps busyServer) 5
    (by rw [hcounts.1]; decide) (by rw [hcounts.1]; decide)
  have hsum := (hall _ _ _ _ _ _ hstats).2.2.1.1
  obtain ⟨-, -, htotal, -, -, -, -, hsplit⟩ := computeCompanyStats_full hstats
  rw [hsplit, distribution_counts, sum_currentFormerCounts, htotal, hcounts.1, hcounts.2] at hsum
  exact absurd hsum (by decide)

end LinkedOut
