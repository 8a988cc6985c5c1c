/-
  Several worker processes on one database, each with caches of its own, as the docstring of
  `app/core/cache.py` describes a deployment of more than one worker.

  `Uncached` is the server as it would be without the caches. `handle_uncached`: a request is
  answered as the uncached server answers it, or from an entry that an equal request has left.
  `workers_refine`: however the requests are spread over the workers, and whenever one of them
  is restarted, database and files are those of the uncached server, and each response is the
  uncached server's to this request, or its response to an equal one that the same worker has
  served, with no restart since and no longer than the time to live before.
-/
import LinkedOut.Api

namespace LinkedOut

/-! ## The caches of one process -/

def Server.withCaches (s : Server) (statsCache : TTLCache Uuid CompanyStats)
    (timelineCache : TTLCache Uuid LayoffTimeline) : Server :=
  { s with statsCache, timelineCache }

/-- The server without what it has cached. -/
def Server.uncached (s : Server) : Server := s.withCaches .empty .empty

/-- The response that is cached for the request, and until when. -/
def Server.cached (s : Server) : Request → Option (Response × Time)
  | .getCompanyStats companyId => (s.statsCache.entries companyId).map fun entry =>
    (.ok (.companyStats entry.value), entry.expiresAt)
  | .getLayoffTimeline companyId => (s.timelineCache.entries companyId).map fun entry =>
    (.ok (.layoffTimeline entry.value), entry.expiresAt)
  | _ => none

/-- The two requests that are cached. -/
def Request.isCached : Request → Bool
  | getCompanyStats _ | getLayoffTimeline _ => true
  | _ => false

section

variable {p : Platform} {env : Env} {s : Server} {a : TTLCache Uuid CompanyStats}
  {b : TTLCache Uuid LayoffTimeline}

theorem answerCommit_withCaches {α : Type} (r : Except HttpException (Db × α))
    (payload : α → Payload) : answerCommit (s.withCaches a b) r payload =
      ((answerCommit s r payload).1, (answerCommit s r payload).2.withCaches a b) := by
  cases r <;> rfl

theorem answerVerify_withCaches (r : Except HttpException (Db × Except HttpException VerifyOut)) :
    answerVerify (s.withCaches a b) r =
      ((answerVerify s r).1, (answerVerify s r).2.withCaches a b) := by
  cases r <;> rfl

theorem answerFiles_withCaches {α : Type} (r : List String × Except HttpException (Db × α))
    (payload : α → Payload) : answerFiles (s.withCaches a b) r payload =
      ((answerFiles s r payload).1, (answerFiles s r payload).2.withCaches a b) :=
  answerCommit_withCaches (s := { s with files := r.1 }) r.2 payload

/-- The other requests do not look at the caches. -/
theorem handle_withCaches {req : Request} (hreq : req.isCached = false) :
    handle p env req (s.withCaches a b) =
      ((handle p env req s).1, (handle p env req s).2.withCaches a b) := by
  cases req with
  | getCompanyStats => cases hreq
  | getLayoffTimeline => cases hreq
  | requestOtp => exact answerCommit_withCaches _ _
  | verifyOtp => exact answerVerify_withCaches _
  | requestEmailVerification => exact answerCommit_withCaches _ _
  | verifyEmail => exact answerVerify_withCaches _
  | uploadDocument => exact answerFiles_withCaches _ _
  | submitReview => exact answerCommit_withCaches _ _
  | corroborateReview => exact answerCommit_withCaches _ _
  | respondToReview => exact answerCommit_withCaches _ _
  | submitLayoffEvent => exact answerCommit_withCaches _ _
  | approveModerationItem => exact answerCommit_withCaches _ _
  | rejectModerationItem => exact answerCommit_withCaches _ _
  | approveDocument => exact answerFiles_withCaches _ _
  | rejectDocument => exact answerFiles_withCaches _ _
  | createTakedownLogEntry => exact answerCommit_withCaches _ _
  | submitGrievance => exact answerCommit_withCaches _ _
  | _ => rfl

/-- What a cached endpoint answers and leaves, beside what it answers with an empty cache. -/
theorem cachedByCompany_uncached {α : Type} (p : Platform) (env : Env)
    (compute : Except HttpException α) (companyId : Uuid) (db : Db) (cache : TTLCache Uuid α) :
    let r := cachedByCompany p env compute companyId db cache
    let r₀ := (cachedByCompany p env compute companyId db .empty).1
    (r.1 = r₀ ∨ ∃ entry, cache.entries companyId = some entry ∧ env.mono 0 ≤ entry.expiresAt ∧
        r.1 = .ok entry.value) ∧
      ∀ key entry, r.2.entries key = some entry → cache.entries key = some entry ∨
        key = companyId ∧ r₀ = .ok entry.value ∧
          entry.expiresAt = env.mono 1 + seconds p.settings.statsCacheTtlSeconds := by
  simp only [cachedByCompany]
  cases requireCompany companyId db with
  | error e => exact ⟨Or.inl rfl, fun _ _ h => Or.inl h⟩
  | ok u =>
    -- after a miss the answer is computed, and stored under its company
    have hmiss : ∀ cache' : TTLCache Uuid α,
        (∀ key entry, cache'.entries key = some entry → cache.entries key = some entry) →
        ∀ result, compute = .ok result → ∀ key entry,
          (cache'.set (seconds p.settings.statsCacheTtlSeconds) (env.mono 1) companyId
            result).entries key = some entry → cache.entries key = some entry ∨
              key = companyId ∧ compute = .ok entry.value ∧
                entry.expiresAt = env.mono 1 + seconds p.settings.statsCacheTtlSeconds := by
      intro cache' hsub result hresult key entry hentry
      unfold TTLCache.set at hentry
      dsimp only at hentry
      split at hentry
      · rename_i hkey
        cases hentry
        exact Or.inr ⟨hkey, hresult, rfl⟩
      · exact Or.inl (hsub key entry hentry)
    have hempty : (TTLCache.empty : TTLCache Uuid α).get (env.mono 0) companyId = (none, .empty) :=
      rfl
    simp only [hempty]
    unfold TTLCache.get
    cases hentry : cache.entries companyId with
    | none =>
      cases compute with
      | error e => exact ⟨Or.inl rfl, fun _ _ h => Or.inl h⟩
      | ok result => exact ⟨Or.inl rfl, hmiss cache (fun _ _ h => h) result rfl⟩
    | some entry =>
      dsimp only
      by_cases hexpired : entry.expiresAt < env.mono 0
      · rw [if_pos hexpired]
        have hsub : ∀ key e, (if key = companyId then none else cache.entries key) = some e →
            cache.entries key = some e := by
          intro key e he
          split at he
          · cases he
          · exact he
        cases compute with
        | error e => exact ⟨Or.inl rfl, fun key e he => Or.inl (hsub key e he)⟩
        | ok result => exact ⟨Or.inl rfl, hmiss ⟨_⟩ hsub result rfl⟩
      · rw [if_neg hexpired]
        exact ⟨Or.inr ⟨entry, rfl, not_lt.mp hexpired, rfl⟩, fun _ _ h => Or.inl h⟩

/-- A request leaves the store as without the caches; it is answered as without them or from
    an entry that has not expired; and what is cached afterwards was so before, or is this
    answer. -/
theorem handle_uncached (p : Platform) (env : Env) (req : Request) (s : Server) :
    ((handle p env req s).2.db = (handle p env req s.uncached).2.db ∧
        (handle p env req s).2.files = (handle p env req s.uncached).2.files) ∧
      ((handle p env req s).1 = (handle p env req s.uncached).1 ∨
        ∃ t, s.cached req = some ((handle p env req s).1, t) ∧ env.mono 0 ≤ t) ∧
      ∀ req' out t, (handle p env req s).2.cached req' = some (out, t) →
        s.cached req' = some (out, t) ∨
          req' = req ∧ out = (handle p env req s.uncached).1 ∧
            t = env.mono 1 + seconds p.settings.statsCacheTtlSeconds := by
  by_cases hreq : req.isCached = false
  · have hstep : handle p env req s = ((handle p env req s.uncached).1,
        (handle p env req s.uncached).2.withCaches s.statsCache s.timelineCache) :=
      handle_withCaches (s := s.uncached) hreq
    have hcaches : ∀ req', (handle p env req s).2.cached req' = s.cached req' := by
      rw [hstep]
      intro req'
      cases req' <;> rfl
    refine ⟨⟨by rw [hstep]; rfl, by rw [hstep]; rfl⟩, Or.inl (by rw [hstep]), ?_⟩
    intro req' out t h
    rw [hcaches] at h
    exact Or.inl h
  · cases req with
    | getCompanyStats companyId =>
      obtain ⟨hanswer, hentries⟩ := cachedByCompany_uncached p env
        (computeCompanyStats p (fun _ => s.db) companyId) companyId s.db s.statsCache
      refine ⟨⟨rfl, rfl⟩, ?_, fun req' out t h => ?_⟩
      · rcases hanswer with hsame | ⟨entry, hentry, hlive, hvalue⟩
        · exact Or.inl (congrArg (Except.map Payload.companyStats) hsame)
        · refine Or.inr ⟨entry.expiresAt, ?_, hlive⟩
          show (s.statsCache.entries companyId).map _ =
            some ((getCompanyStats p env companyId s.db s.statsCache).1.map _, _)
          rw [hentry, getCompanyStats, hvalue]
          rfl
      · cases req' with
        | getCompanyStats key =>
          obtain ⟨entry, hentry, heq⟩ := Option.map_eq_some_iff.mp h
          cases heq
          rcases hentries key entry hentry with hold | ⟨rfl, hvalue, hexpires⟩
          · exact Or.inl (congrArg (Option.map _) hold)
          · exact Or.inr ⟨rfl, congrArg (Except.map Payload.companyStats) hvalue.symm, hexpires⟩
        | _ => exact Or.inl h
    | getLayoffTimeline companyId =>
      obtain ⟨hanswer, hentries⟩ := cachedByCompany_uncached p env
        (.ok (computeLayoffTimeline (env.place 0) s.db companyId)) companyId s.db s.timelineCache
      refine ⟨⟨rfl, rfl⟩, ?_, fun req' out t h => ?_⟩
      · rcases hanswer with hsame | ⟨entry, hentry, hlive, hvalue⟩
        · exact Or.inl (congrArg (Except.map Payload.layoffTimeline) hsame)
        · refine Or.inr ⟨entry.expiresAt, ?_, hlive⟩
          show (s.timelineCache.entries companyId).map _ =
            some ((getLayoffTimeline p env companyId s.db s.timelineCache).1.map _, _)
          rw [hentry, getLayoffTimeline, hvalue]
          rfl
      · cases req' with
        | getLayoffTimeline key =>
          obtain ⟨entry, hentry, heq⟩ := Option.map_eq_some_iff.mp h
          cases heq
          rcases hentries key entry hentry with hold | ⟨rfl, hvalue, hexpires⟩
          · exact Or.inl (congrArg (Option.map _) hold)
          · exact Or.inr ⟨rfl, congrArg (Except.map Payload.layoffTimeline) hvalue.symm, hexpires⟩
        | _ => exact Or.inl h
    | _ => exact absurd rfl hreq

end

/-! ## A deployment of several workers -/

/-- What the workers share, and what each has cached. -/
structure Deployment (ι : Type) where
  db : Db
  files : List String
  statsCaches : ι → TTLCache Uuid CompanyStats
  timelineCaches : ι → TTLCache Uuid LayoffTimeline

/-- A request that worker `i` serves, or the restart of worker `i`. -/
inductive WorkerEvent (ι : Type) where
  | serve (i : ι) (req : Request) (d : Draws)
  | restart (i : ι)

/-- The process of worker `i`. -/
def Deployment.worker {ι : Type} (D : Deployment ι) (i : ι) : Server :=
  ⟨D.db, D.files, D.statsCaches i, D.timelineCaches i⟩

/-- Worker `i` as it is after a step. -/
def Deployment.put {ι : Type} [DecidableEq ι] (D : Deployment ι) (i : ι) (s : Server) :
    Deployment ι where
  db := s.db
  files := s.files
  statsCaches := Function.update D.statsCaches i s.statsCache
  timelineCaches := Function.update D.timelineCaches i s.timelineCache

/-- The workers just started. -/
def Deployment.start (ι : Type) (db : Db) (files : List String) : Deployment ι :=
  ⟨db, files, fun _ => .empty, fun _ => .empty⟩

/-- Requests served one at a time, each by some worker. -/
def Workers (ι : Type) [DecidableEq ι] (p : Platform) :
    Machine (WorkerEvent ι) (Deployment ι) (Option Response) where
  step e D :=
    match e with
    | .serve i req d =>
      let r := handle p d.env req (D.worker i)
      (some r.1, D.put i r.2)
    | .restart i => (none, D.put i (D.worker i).uncached)

/-- The server that computes every answer anew. -/
def Uncached (p : Platform) : Machine (Request × Draws) (Db × List String) Response where
  step e s :=
    let r := handle p e.2.env e.1 ⟨s.1, s.2, .empty, .empty⟩
    (r.1, (r.2.db, r.2.files))

/-- The requests of a run, in the order in which they are served. -/
def requestsOf {ι : Type} (es : List (WorkerEvent ι)) : List (Request × Draws) :=
  es.filterMap fun e =>
    match e with
    | .serve _ req d => some (req, d)
    | .restart _ => none

section

variable {ι : Type} {p : Platform} {start : Db × List String} {es : List (WorkerEvent ι)}

/-- The uncached server's response at this point of the run. -/
def uncachedResponse (p : Platform) (start : Db × List String) (before : List (WorkerEvent ι))
    (req : Request) (d : Draws) : Response :=
  ((Uncached p).step (req, d) ((Uncached p).exec (requestsOf before) start)).1

/-- Worker `i` has served the request with this response of the uncached server, has not been
    restarted since, and `t` is the time to live after that. -/
def Remembered (p : Platform) (start : Db × List String) (es : List (WorkerEvent ι)) (i : ι)
    (req : Request) (out : Response) (t : Time) : Prop :=
  ∃ before d after, es = before ++ .serve i req d :: after ∧ .restart i ∉ after ∧
    uncachedResponse p start before req d = out ∧
    t = d.mono 1 + seconds p.settings.statsCacheTtlSeconds

theorem Remembered.snoc {i : ι} {req : Request} {out : Response} {t : Time}
    (h : Remembered p start es i req out t) {e : WorkerEvent ι} (he : e ≠ .restart i) :
    Remembered p start (es ++ [e]) i req out t := by
  obtain ⟨before, d, after, rfl, hafter, hout, ht⟩ := h
  refine ⟨before, d, after ++ [e], by simp, fun hmem => ?_, hout, ht⟩
  rcases List.mem_append.mp hmem with hold | hnew
  · exact hafter hold
  · exact he (List.mem_singleton.mp hnew).symm

/-- What holds after every run. -/
structure WorkersInv (p : Platform) (start : Db × List String) (es : List (WorkerEvent ι))
    (D : Deployment ι) : Prop where
  store : (D.db, D.files) = (Uncached p).exec (requestsOf es) start
  cached : ∀ i req out t, (D.worker i).cached req = some (out, t) →
    Remembered p start es i req out t

variable {D : Deployment ι}

/-- The uncached server at the point where worker `i` serves a request. -/
theorem WorkersInv.uncachedStep (h : WorkersInv p start es D) (i : ι) (req : Request) (d : Draws) :
    (Uncached p).step (req, d) ((Uncached p).exec (requestsOf es) start) =
      ((handle p d.env req (D.worker i).uncached).1,
        ((handle p d.env req (D.worker i).uncached).2.db,
          (handle p d.env req (D.worker i).uncached).2.files)) := by
  rw [← h.store]
  rfl

theorem uncached_cached (s : Server) (req : Request) : s.uncached.cached req = none := by
  cases req <;> rfl

theorem isCached_of_cached {s : Server} {req : Request} {r : Response × Time}
    (h : s.cached req = some r) : req.isCached = true := by
  cases req with
  | getCompanyStats => rfl
  | getLayoffTimeline => rfl
  | _ => cases h

variable [DecidableEq ι]

theorem put_worker_self (i : ι) (s : Server) : (D.put i s).worker i = s := by
  unfold Deployment.put Deployment.worker
  simp only [Function.update_self]

theorem put_worker_cached {i j : ι} (hj : j ≠ i) (s : Server) (req : Request) :
    ((D.put i s).worker j).cached req = (D.worker j).cached req := by
  unfold Deployment.put Deployment.worker
  simp only [Function.update_of_ne hj]
  cases req <;> rfl

theorem WorkersInv.step (h : WorkersInv p start es D) (e : WorkerEvent ι) :
    WorkersInv p start (es ++ [e]) ((Workers ι p).step e D).2 := by
  cases e with
  | serve i req d =>
    obtain ⟨⟨hdb, hfiles⟩, -, hcached⟩ := handle_uncached p d.env req (D.worker i)
    have hrequests : requestsOf (es ++ [.serve i req d]) = requestsOf es ++ [(req, d)] :=
      List.filterMap_append
    constructor
    · rw [hrequests, (Uncached p).exec_snoc, h.uncachedStep i]
      exact congrArg₂ Prod.mk hdb hfiles
    · intro j req' out t hj
      by_cases hji : j = i
      · subst hji
        change ((D.put j _).worker j).cached req' = _ at hj
        rw [put_worker_self] at hj
        rcases hcached req' out t hj with hold | ⟨rfl, rfl, rfl⟩
        · exact (h.cached j req' out t hold).snoc nofun
        · refine ⟨es, d, [], rfl, by simp, ?_, rfl⟩
          rw [uncachedResponse, h.uncachedStep j]
      · change ((D.put i _).worker j).cached req' = _ at hj
        rw [put_worker_cached hji] at hj
        exact (h.cached j req' out t hj).snoc nofun
  | restart i =>
    have hrequests : requestsOf (es ++ [.restart i]) = requestsOf es :=
      List.filterMap_append.trans (List.append_nil _)
    constructor
    · rw [hrequests]
      exact h.store
    · intro j req' out t hj
      by_cases hji : j = i
      · subst hji
        change ((D.put j _).worker j).cached req' = _ at hj
        rw [put_worker_self, uncached_cached] at hj
        cases hj
      · change ((D.put i _).worker j).cached req' = _ at hj
        rw [put_worker_cached hji] at hj
        exact (h.cached j req' out t hj).snoc fun heq => hji (by cases heq; rfl)

theorem workersInv_run (p : Platform) (db : Db) (files : List String)
    (es : List (WorkerEvent ι)) :
    WorkersInv p (db, files) es ((Workers ι p).exec es (.start ι db files)) := by
  induction es using List.reverseRecOn with
  | nil => exact ⟨rfl, fun i req out t h => by cases req <;> cases h⟩
  | append_singleton es e ih =>
    rw [(Workers ι p).exec_snoc]
    exact ih.step e

/-- However the requests are spread over the workers, and whenever one is restarted: database
    and files are those of the server without caches, and a response is that server's, to this
    request or, for stats and timelines, to an equal one that the worker has served not longer
    than the time to live before and since its last restart. -/
theorem workers_refine (p : Platform) (db : Db) (files : List String)
    (before : List (WorkerEvent ι)) (i : ι) (req : Request) (d : Draws) :
    let D := (Workers ι p).exec before (.start ι db files)
    (D.db, D.files) = (Uncached p).exec (requestsOf before) (db, files) ∧
      ∃ out, ((Workers ι p).step (.serve i req d) D).1 = some out ∧
        (out = uncachedResponse p (db, files) before req d ∨
          req.isCached = true ∧
            ∃ t, Remembered p (db, files) before i req out t ∧ d.mono 0 ≤ t) := by
  intro D
  have hinv := workersInv_run p db files before
  refine ⟨hinv.store, _, rfl, ?_⟩
  obtain ⟨-, hanswer, -⟩ := handle_uncached p d.env req (D.worker i)
  rcases hanswer with hsame | ⟨t, hcached, hlive⟩
  · left
    rw [uncachedResponse, hinv.uncachedStep i]
    exact hsame
  · exact Or.inr ⟨isCached_of_cached hcached, t, hinv.cached i req _ t hcached, hlive⟩

end

end LinkedOut
