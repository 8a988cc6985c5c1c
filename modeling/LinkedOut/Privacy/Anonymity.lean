/-
  Two databases that differ only in who owns the reviews, the corroborations and the
  layoff events look the same from outside.

  `SameButOwners` erases the owner columns and leaves the user tables alone.
  `reviewer_anonymity`: every sequence of public GETs and employer responses gets the
  same answers on both. The step is `fromOutside_step`: a GET shows no owner, and an
  employer response adds one row to a table that both share.
-/
import LinkedOut.Paired
import LinkedOut.Privacy.PublicReads

namespace LinkedOut

/-! ## Erasing the owners -/

def Review.anonymous (r : Review) : Review := { r with userId := 0 }

def Corroboration.anonymous (c : Corroboration) : Corroboration := { c with userId := 0 }

def LayoffEvent.anonymous (e : LayoffEvent) : LayoffEvent := { e with submittedByUserId := none }

/-- The databases differ in the owner columns, the users and what only they can read. -/
structure SameButOwners (db db' : Db) : Prop where
  companies : db.companies = db'.companies
  employerAccounts : db.employerAccounts = db'.employerAccounts
  employerResponses : db.employerResponses = db'.employerResponses
  takedownLog : db.takedownLogEntries = db'.takedownLogEntries
  reviews : db.reviews.rows.map Review.anonymous = db'.reviews.rows.map Review.anonymous
  corroborations : db.corroborations.rows.map Corroboration.anonymous =
    db'.corroborations.rows.map Corroboration.anonymous
  layoffEvents : db.layoffEvents.rows.map LayoffEvent.anonymous =
    db'.layoffEvents.rows.map LayoffEvent.anonymous

/-- The processes have cached the same. -/
structure SameFromOutside (s s' : Server) : Prop where
  db : SameButOwners s.db s'.db
  statsCache : s.statsCache = s'.statsCache
  timelineCache : s.timelineCache = s'.timelineCache

/-- A public GET, or an employer response. -/
inductive Request.FromOutside : Request → Prop where
  | get (g : PublicGet) : FromOutside g.request
  | respond (reviewId : Uuid) (responseText : String) (token : Option String) :
    FromOutside (.respondToReview reviewId responseText token)

/-! ## Queries that do not look at the owner -/

section

variable {α : Type} [Record α] {t u : Table α} {f : α → α} (h : t.rows.map f = u.rows.map f)

include h

theorem map_select_congr {p : α → Bool} (hp : ∀ a, p (f a) = p a) :
    (t.select p).map f = (u.select p).map f := by
  have hcomp : p ∘ f = p := funext hp
  have hfilter := congrArg (List.filter p) h
  rw [List.filter_map, List.filter_map, hcomp] at hfilter
  exact hfilter

theorem map_find?_congr (hpk : ∀ a, pk (f a) = pk a) (k : Nat) :
    (t.find? k).map f = (u.find? k).map f := by
  have hcomp : (fun a : α => pk a == k) ∘ f = fun a => pk a == k := by
    funext a
    rw [Function.comp_apply, hpk]
  have hfind := congrArg (List.find? fun a : α => pk a == k) h
  rw [List.find?_map, List.find?_map, hcomp] at hfind
  exact hfind

end

/-- What is read of the rows is read of the rows without their owners. -/
theorem map_read_congr {α β : Type} {l l' : List α} {f : α → α} {read : α → β}
    (h : l.map f = l'.map f) (hread : ∀ a, read (f a) = read a) : l.map read = l'.map read := by
  have hcomp : read ∘ f = read := funext hread
  rw [← hcomp, ← List.map_map, ← List.map_map, h]

namespace SameButOwners

variable {db db' : Db} (h : SameButOwners db db')

include h

theorem publishedReviews (companyId : Uuid) :
    (publishedReviews db companyId).map Review.anonymous =
      (LinkedOut.publishedReviews db' companyId).map Review.anonymous :=
  map_select_congr h.reviews fun _ => rfl

theorem publishedLayoffEvents (companyId : Uuid) :
    (publishedLayoffEvents db companyId).map LayoffEvent.anonymous =
      (LinkedOut.publishedLayoffEvents db' companyId).map LayoffEvent.anonymous :=
  map_select_congr h.layoffEvents fun _ => rfl

theorem corroborationsOf (reviewId : Uuid) :
    (corroborationsOf db reviewId).map Corroboration.anonymous =
      (LinkedOut.corroborationsOf db' reviewId).map Corroboration.anonymous :=
  map_select_congr h.corroborations fun _ => rfl

theorem corroborationTotal (companyId : Uuid) :
    corroborationTotal db companyId = LinkedOut.corroborationTotal db' companyId := by
  have hcount : ∀ r : Review, (LinkedOut.corroborationsOf db r.id).length =
      (LinkedOut.corroborationsOf db' r.id).length := fun r => by
    simpa using congrArg List.length (h.corroborationsOf r.id)
  rw [corroborationTotal_eq_sum, corroborationTotal_eq_sum]
  refine congrArg List.sum ?_
  calc (LinkedOut.publishedReviews db companyId).map
        (fun r => (LinkedOut.corroborationsOf db r.id).length)
      = (LinkedOut.publishedReviews db companyId).map
        (fun r => (LinkedOut.corroborationsOf db' r.id).length) :=
        List.map_congr_left fun r _ => hcount r
    _ = (LinkedOut.publishedReviews db' companyId).map
        (fun r => (LinkedOut.corroborationsOf db' r.id).length) :=
        map_read_congr (h.publishedReviews companyId) fun _ => rfl

theorem sameCompany (companyId : Uuid) : SameCompany db db' companyId := by
  unfold SameCompany
  rw [h.companies]

theorem sameStatsRows (companyId : Uuid) : SameStatsRows db db' companyId where
  reviews := .of_eq (map_read_congr (h.publishedReviews companyId) fun _ => rfl)
  corroborations := h.corroborationTotal companyId
  layoffEvents := .of_eq (map_read_congr (h.publishedLayoffEvents companyId) fun _ => rfl)

/-- No query of a public GET looks at an owner. -/
theorem sameRows (place : Uuid → Nat) (g : PublicGet) : g.SameRows place db db' := by
  cases g with
  | listCompanyReviews companyId page =>
    exact map_read_congr (map_orderDesc_congr _ _ (h.publishedReviews companyId)
      (fun _ => rfl) fun _ => rfl) fun _ => rfl
  | listCorroborations reviewId page =>
    refine ⟨?_, map_read_congr (map_orderDesc_congr _ _ (h.corroborationsOf reviewId)
      (fun _ => rfl) fun _ => rfl) fun _ => rfl⟩
    simpa using congrArg Option.isSome (map_find?_congr h.reviews (fun _ => rfl) reviewId)
  | listCompanyLayoffEvents companyId page =>
    exact map_read_congr (map_orderDesc_congr _ _ (h.publishedLayoffEvents companyId)
      (fun _ => rfl) fun _ => rfl) fun _ => rfl
  | getCompanyStats companyId => exact ⟨h.sameCompany companyId, h.sameStatsRows companyId⟩
  | getLayoffTimeline companyId =>
    exact ⟨h.sameCompany companyId, map_read_congr (map_orderAsc_congr _ _
      (h.publishedLayoffEvents companyId) (fun _ => rfl) fun _ => rfl) fun _ => rfl⟩
  | listTakedownLog page =>
    show orderedTakedowns place db = orderedTakedowns place db'
    unfold orderedTakedowns
    rw [h.takedownLog]

end SameButOwners

/-! ## An employer response -/

theorem getCurrentEmployerAccount_congr (p : Platform) (env : Env) (token : Option String)
    {db db' : Db} (h : db.employerAccounts = db'.employerAccounts) :
    getCurrentEmployerAccount p env token db = getCurrentEmployerAccount p env token db' := by
  simp only [getCurrentEmployerAccount, Lookup.rows, h]

/-- The review that is found belongs to the same company. -/
theorem SameButOwners.requireReview {db db' : Db} (h : SameButOwners db db') (reviewId : Uuid) :
    (requireReview reviewId db).map Review.companyId =
      (LinkedOut.requireReview reviewId db').map Review.companyId := by
  have hrows := congrArg (List.map Review.companyId)
    (map_select_congr h.reviews (p := fun r => pk r == reviewId) fun _ => rfl)
  rw [List.map_map, List.map_map] at hrows
  have hhead := congrArg List.head? hrows
  rw [List.head?_map, List.head?_map] at hhead
  unfold LinkedOut.requireReview
  cases h1 : (db.reviews.select fun r => pk r == reviewId).head? with
  | none =>
    rw [h1, Option.map_none, eq_comm, Option.map_eq_none_iff] at hhead
    rw [hhead]
  | some r =>
    rw [h1, Option.map_some, eq_comm, Option.map_eq_some_iff] at hhead
    obtain ⟨r', hr', hcompany⟩ := hhead
    rw [hr']
    exact congrArg Except.ok hcompany.symm

/-- The handler raises the same on both databases, or adds one response to the table that
    they share. -/
theorem SameButOwners.respondToReview {db db' : Db} (h : SameButOwners db db') (p : Platform)
    (env : Env) (reviewId : Uuid) (responseText : String) (token : Option String) :
    (∃ e, respondToReview p env reviewId responseText token db = .error e ∧
      LinkedOut.respondToReview p env reviewId responseText token db' = .error e) ∨
    ∃ t out,
      LinkedOut.respondToReview p env reviewId responseText token db =
        .ok ({ db with employerResponses := t }, out) ∧
      LinkedOut.respondToReview p env reviewId responseText token db' =
        .ok ({ db' with employerResponses := t }, out) := by
  have hpaired : Paired
      (fun r r' => ∃ t, r.1 = { db with employerResponses := t } ∧
        r' = ({ db' with employerResponses := t }, r.2))
      (LinkedOut.respondToReview p env reviewId responseText token db)
      (LinkedOut.respondToReview p env reviewId responseText token db') := by
    have haccount := getCurrentEmployerAccount_congr p env token h.employerAccounts
    have hexisting : refuseExisting (.responseTo reviewId) alreadyAnswered db =
        refuseExisting (.responseTo reviewId) alreadyAnswered db' := by
      simp only [refuseExisting, Lookup.rows, h.employerResponses]
    unfold LinkedOut.respondToReview
    rw [haccount, hexisting, h.employerResponses]
    refine .bind_eq rfl fun account => .bind_eq rfl fun _ => ?_
    refine .bind (.of_map_eq (h.requireReview reviewId)) fun r r' hcompany => ?_
    -- from here on both databases are asked the same
    rw [hcompany]
    exact .bind_eq rfl fun _ => .bind_eq rfl fun _ => .bind_eq rfl fun t => .ok ⟨t, rfl, rfl⟩
  rcases hpaired.error_or_ok with ⟨e, he, he'⟩ | ⟨⟨db1, out⟩, r', ⟨t, rfl, rfl⟩, hok, hok'⟩
  · exact Or.inl ⟨e, he, he'⟩
  · exact Or.inr ⟨t, out, hok, hok'⟩

/-! ## Runs -/

theorem fromOutside_step (p : Platform) (e : Request × Draws) (s s' : Server)
    (he : e.1.FromOutside) (h : SameFromOutside s s') :
    ((Api p).step e s).1 = ((Api p).step e s').1 ∧
      SameFromOutside ((Api p).step e s).2 ((Api p).step e s').2 := by
  obtain ⟨req, d⟩ := e
  show (handle p d.env req s).1 = (handle p d.env req s').1 ∧
    SameFromOutside (handle p d.env req s).2 (handle p d.env req s').2
  cases he with
  | get g =>
    obtain ⟨hout, hstats, htimeline⟩ := publicGet_congr p d.env g
      (h.db.sameRows (d.env.place 0) g) h.statsCache h.timelineCache
    have hdb : SameButOwners (handle p d.env g.request s).2.db
        (handle p d.env g.request s').2.db := by
      rw [handle_publicGet_db, handle_publicGet_db]
      exact h.db
    exact ⟨hout, hdb, hstats, htimeline⟩
  | respond reviewId responseText token =>
    simp only [handle]
    rcases h.db.respondToReview p d.env reviewId responseText token with
      ⟨e, he, he'⟩ | ⟨t, out, ht, ht'⟩
    · rw [he, he']
      exact ⟨rfl, h⟩
    · rw [ht, ht']
      exact ⟨rfl, { h.db with employerResponses := rfl }, h.statsCache, h.timelineCache⟩

/-- Whoever owns the content, every sequence of public GETs and employer responses gets the
    same answers, given the same draws. -/
theorem reviewer_anonymity (p : Platform) (es : List (Request × Draws))
    (hes : ∀ e ∈ es, e.1.FromOutside) (s s' : Server) (h : SameFromOutside s s') :
    (Api p).outputs es s = (Api p).outputs es s' :=
  (Api p).outputs_eq_of_sim (P := fun e => e.1.FromOutside) (fromOutside_step p) es hes s s' h

/-- A published review and a published layoff event of one user, and a corroboration by
    another; `users` are the two. -/
def ownedDb (author reader : User)
    (h : author.id ≠ reader.id ∧ author.phoneHash ≠ reader.phoneHash) : Db :=
  { smallDb with
    users := ⟨[author, reader], by simp [clash, h]⟩
    reviews := ⟨[⟨20, author.id, 5, .culture, .oneTo3yr, "engineering", .ic, true, "long hours",
      .published, none, 0⟩], List.pairwise_singleton _ _⟩
    corroborations := ⟨[⟨21, 20, reader.id, some "same here", 1⟩], List.pairwise_singleton _ _⟩
    layoffEvents := ⟨[⟨22, 5, 0, none, some 40, .selfReported, none, some author.id, .published,
      none, 2⟩], List.pairwise_singleton _ _⟩ }

/-- Every public GET, and an answer by the employer. -/
def outsideRun : List (Request × Draws) :=
  [(.listCompanyReviews 5 {}, drawsAt 0 30), (.listCorroborations 20 {}, drawsAt 1 30),
    (.listCompanyLayoffEvents 5 {}, drawsAt 2 30), (.getCompanyStats 5, drawsAt 3 30),
    (.getLayoffTimeline 5, drawsAt 4 30), (.listTakedownLog {}, drawsAt 5 30),
    (.respondToReview 20 "we hear you" (some "hr"), drawsAt 6 31)]

theorem outsideRun_fromOutside : ∀ e ∈ outsideRun, e.1.FromOutside := by
  simp only [outsideRun, List.forall_mem_cons]
  exact ⟨.get (.listCompanyReviews 5 {}), .get (.listCorroborations 20 {}),
    .get (.listCompanyLayoffEvents 5 {}), .get (.getCompanyStats 5), .get (.getLayoffTimeline 5),
    .get (.listTakedownLog {}), .respond _ _ _, fun e he => by cases he⟩

/-- Alice's review corroborated by Bob, or Bob's by Alice. -/
theorem outsideRun_anonymous :
    (Api smallPlatform).outputs outsideRun (.start (ownedDb alice bob (by decide))) =
      (Api smallPlatform).outputs outsideRun (.start (ownedDb bob alice (by decide))) :=
  reviewer_anonymity smallPlatform outsideRun outsideRun_fromOutside _ _
    ⟨⟨rfl, rfl, rfl, rfl, rfl, rfl, rfl⟩, rfl, rfl⟩

end LinkedOut
