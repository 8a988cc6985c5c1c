/-
  The two cached aggregations under concurrent requests.

  A request is a session: the SELECT of the company, the lookup in the cache, the statements
  of the aggregation one by one, and the store with the response. What a session draws is the
  reading of the clock and the database as it is committed at that moment, so whatever else
  the server does is covered. `serve_alone`: a session whose steps follow each other is the
  handler.

  `ServeInv`: what is in the cache was stored by a session that had computed it, for the same
  company and from what its own statements read. `ttl_cache`: a `get` gives back the most
  recent `set` of its key while that is not older than `ttl`, and every response is a payload
  computed for the same company, by the request itself or stored at most `ttl` before.
-/
import LinkedOut.Cache
import LinkedOut.Interleave
import LinkedOut.Api

namespace LinkedOut

/-! ## The sessions -/

/-- What a statement reads: the committed database, and the engine's order of equal keys. -/
structure View where
  db : Db
  place : Uuid → Nat

structure Moment extends View where
  mono : Time

/-- An aggregation: the result for a company, once enough statements have read. -/
abbrev Aggregation (α : Type) := Uuid → List View → Option (Except HttpException α)

/-- The count comes first; with too few reviews there is no second statement. -/
def statsAggregation (p : Platform) : Aggregation CompanyStats := fun companyId views =>
  match views with
  | [] => none
  | first :: rest =>
    if countPublishedReviews first.db companyId < p.settings.statsMinPublishedReviews ∨
        7 ≤ rest.length then
      some (computeCompanyStats p (fun i => ((first :: rest).getD i first).db) companyId)
    else none

def timelineAggregation : Aggregation LayoffTimeline := fun companyId views =>
  match views with
  | [] => none
  | view :: _ => some (.ok (computeLayoffTimeline view.place view.db companyId))

inductive Serving where
  | idle
  | found
  | reading (views : List View)
  | finished

inductive ServeEvent (ι α : Type) where
  | read (i : ι) (view : View)
  | stored (i : ι) (payload : α) (at_ : Time)
  | answered (i : ι) (payload : α) (at_ : Time)

section

variable {ι α : Type} (agg : Aggregation α) (ttl : Time) (companyOf : ι → Uuid)

/-- The next step of request `i`, which is about company `companyOf i`. -/
def serveStep (i : ι) (m : Moment) (cache : TTLCache Uuid α) (l : Serving) :
    List (ServeEvent ι α) × TTLCache Uuid α × Serving :=
  match l with
  | .idle =>
    match requireCompany (companyOf i) m.db with
    | .error _ => ([], cache, .finished)
    | .ok () => ([], cache, .found)
  | .found =>
    match cache.get m.mono (companyOf i) with
    | (some cached, cache') => ([.answered i cached m.mono], cache', .finished)
    | (none, cache') => ([], cache', .reading [])
  | .reading views =>
    match agg (companyOf i) views with
    | none => ([.read i m.toView], cache, .reading (views ++ [m.toView]))
    | some (.error _) => ([], cache, .finished)
    | some (.ok result) =>
      ([.stored i result m.mono, .answered i result m.mono],
        cache.set ttl m.mono (companyOf i) result, .finished)
  | .finished => ([], cache, .finished)

/-- Everything a step can do. -/
inductive ServeMove (i : ι) (m : Moment) (cache : TTLCache Uuid α) :
    Serving → List (ServeEvent ι α) × TTLCache Uuid α × Serving → Prop
  | find : ServeMove i m cache .idle ([], cache, .found)
  | miss (cache' : TTLCache Uuid α)
      (h : ∀ key entry, cache'.entries key = some entry → cache.entries key = some entry) :
      ServeMove i m cache .found ([], cache', .reading [])
  | hit (entry : Entry α) (hentry : cache.entries (companyOf i) = some entry)
      (hlive : m.mono ≤ entry.expiresAt) :
      ServeMove i m cache .found ([.answered i entry.value m.mono], cache, .finished)
  | read (views : List View) :
      ServeMove i m cache (.reading views)
        ([.read i m.toView], cache, .reading (views ++ [m.toView]))
  | store (views : List View) (result : α) (h : agg (companyOf i) views = some (.ok result)) :
      ServeMove i m cache (.reading views) ([.stored i result m.mono, .answered i result m.mono],
        cache.set ttl m.mono (companyOf i) result, .finished)
  | stop (l : Serving) : ServeMove i m cache l ([], cache, .finished)

theorem serveStep_move (i : ι) (m : Moment) (cache : TTLCache Uuid α) (l : Serving) :
    ServeMove agg ttl companyOf i m cache l (serveStep agg ttl companyOf i m cache l) := by
  cases l with
  | idle =>
    unfold serveStep
    dsimp only
    split
    · exact .stop _
    · exact .find
  | found =>
    unfold serveStep TTLCache.get
    cases hentry : cache.entries (companyOf i) with
    | none => exact .miss cache fun _ _ h => h
    | some entry =>
      dsimp only
      by_cases hexpired : entry.expiresAt < m.mono
      · rw [if_pos hexpired]
        refine .miss _ fun key e he => ?_
        dsimp only at he
        split at he
        · cases he
        · exact he
      · rw [if_neg hexpired]
        exact .hit entry hentry (not_lt.mp hexpired)
  | reading views =>
    unfold serveStep
    dsimp only
    split
    · exact .read views
    · exact .stop _
    · rename_i result hresult
      exact .store views result hresult
  | finished => exact .stop _

/-! ## What the cache holds -/

variable [DecidableEq ι]

/-- The database states that the statements of request `i` have read, in order. -/
def viewsRead (i : ι) (os : List (ServeEvent ι α)) : List View :=
  os.filterMap fun o =>
    match o with
    | .read j view => if j = i then some view else none
    | _ => none

theorem viewsRead_append (i : ι) (os os' : List (ServeEvent ι α)) :
    viewsRead i (os ++ os') = viewsRead i os ++ viewsRead i os' := List.filterMap_append

/-- A response at time `t`: the payload was computed for the same company by a request that
    then stored it, this one or one at most `ttl` before. -/
def Justified (before : List (ServeEvent ι α)) (i : ι) (payload : α) (t : Time) : Prop :=
  ∃ j s, .stored j payload s ∈ before ∧ companyOf j = companyOf i ∧
    agg (companyOf j) (viewsRead j before) = some (.ok payload) ∧
    (j = i ∨ s ≤ t ∧ t ≤ s + ttl)

/-- What holds of what was observed up to the time `now` and of the sessions. -/
structure ServeInv (now : Time) (os : List (ServeEvent ι α))
    (c : Conf ι (TTLCache Uuid α) Serving) : Prop where
  entries : ∀ key entry, c.shared.entries key = some entry →
    ∃ j s, .stored j entry.value s ∈ os ∧ companyOf j = key ∧ entry.expiresAt = s + ttl
  unread : ∀ j, c.sess j = .idle ∨ c.sess j = .found → viewsRead j os = []
  reading : ∀ j views, c.sess j = .reading views → viewsRead j os = views
  computed : ∀ j payload s, .stored j payload s ∈ os → c.sess j = .finished ∧ s ≤ now ∧
    agg (companyOf j) (viewsRead j os) = some (.ok payload)
  justified : ∀ before i payload t, before ++ [.answered i payload t] <+: os →
    Justified agg ttl companyOf before i payload t

variable {agg ttl companyOf} {now : Time} {os new : List (ServeEvent ι α)}
  {c : Conf ι (TTLCache Uuid α) Serving} {i : ι} {m : Moment} {cache' : TTLCache Uuid α}
  {l' : Serving}

/-- What a step of request `i` has to keep. -/
theorem ServeInv.advance (h : ServeInv agg ttl companyOf now os c) (hle : now ≤ m.mono)
    (hown : ∀ j, j ≠ i → viewsRead j new = [])
    (hentries : ∀ key entry, cache'.entries key = some entry →
      c.shared.entries key = some entry ∨
        ∃ s, .stored i entry.value s ∈ new ∧ companyOf i = key ∧ entry.expiresAt = s + ttl)
    (hunread : l' = .idle ∨ l' = .found → viewsRead i (os ++ new) = [])
    (hreading : ∀ views, l' = .reading views → viewsRead i (os ++ new) = views)
    (hcomputed : ∀ j payload s, .stored j payload s ∈ new → j = i ∧ l' = .finished ∧ s ≤ m.mono ∧
      agg (companyOf i) (viewsRead i (os ++ new)) = some (.ok payload))
    (hdone : c.sess i = .finished → l' = .finished ∧ viewsRead i new = [])
    (hjustified : ∀ before j payload t, before ++ [.answered j payload t] <+: os ++ new →
      before ++ [.answered j payload t] <+: os ∨
        Justified agg ttl companyOf before j payload t) :
    ServeInv agg ttl companyOf m.mono (os ++ new) ⟨cache', Function.update c.sess i l'⟩ := by
  have hother : ∀ j, j ≠ i → Function.update c.sess i l' j = c.sess j ∧
      viewsRead j (os ++ new) = viewsRead j os := fun j hj =>
    ⟨Function.update_of_ne hj _ _, by rw [viewsRead_append, hown j hj, List.append_nil]⟩
  have hself : Function.update c.sess i l' i = l' := Function.update_self _ _ _
  refine ⟨fun key entry hentry => ?_, fun j hj => ?_, fun j views hj => ?_,
    fun j payload s hs => ?_, fun before j payload t hprefix => ?_⟩
  · rcases hentries key entry hentry with hold | ⟨s, hs, hkey, hexpires⟩
    · obtain ⟨j, s, hs, hrest⟩ := h.entries key entry hold
      exact ⟨j, s, List.mem_append_left _ hs, hrest⟩
    · exact ⟨i, s, List.mem_append_right _ hs, hkey, hexpires⟩
  · dsimp only at hj
    by_cases hji : j = i
    · subst hji
      rw [hself] at hj
      exact hunread hj
    · rw [(hother j hji).1] at hj
      rw [(hother j hji).2]
      exact h.unread j hj
  · dsimp only at hj
    by_cases hji : j = i
    · subst hji
      rw [hself] at hj
      exact hreading views hj
    · rw [(hother j hji).1] at hj
      rw [(hother j hji).2]
      exact h.reading j views hj
  · dsimp only
    rcases List.mem_append.mp hs with hs | hs
    · obtain ⟨hfinished, hpast, hagg⟩ := h.computed j payload s hs
      by_cases hji : j = i
      · subst hji
        obtain ⟨hl', hnone⟩ := hdone hfinished
        refine ⟨hself.trans hl', hpast.trans hle, ?_⟩
        rw [viewsRead_append, hnone, List.append_nil]
        exact hagg
      · rw [(hother j hji).1, (hother j hji).2]
        exact ⟨hfinished, hpast.trans hle, hagg⟩
    · obtain ⟨rfl, hl', hpast, hagg⟩ := hcomputed j payload s hs
      exact ⟨hself.trans hl', hpast, hagg⟩
  · rcases hjustified before j payload t hprefix with hold | hnew
    · exact h.justified before j payload t hold
    · exact hnew

/-- A step of request `i` of which nothing is observed. -/
theorem ServeInv.silent (h : ServeInv agg ttl companyOf now os c) (hle : now ≤ m.mono)
    (hentries : ∀ key entry, cache'.entries key = some entry → c.shared.entries key = some entry)
    (hunread : l' = .idle ∨ l' = .found → viewsRead i os = [])
    (hreading : ∀ views, l' = .reading views → viewsRead i os = views)
    (hdone : c.sess i = .finished → l' = .finished) :
    ServeInv agg ttl companyOf m.mono (os ++ []) ⟨cache', Function.update c.sess i l'⟩ := by
  refine h.advance hle (fun _ _ => rfl) (fun key e he => Or.inl (hentries key e he)) ?_ ?_
    (fun _ _ _ hs => nomatch hs) (fun hf => ⟨hdone hf, rfl⟩) fun _ _ _ _ hp => Or.inl ?_
  · rw [List.append_nil]
    exact hunread
  · rw [List.append_nil]
    exact hreading
  · rw [List.append_nil] at hp
    exact hp

omit [DecidableEq ι] in
/-- A response right at the end of what was observed. -/
theorem prefix_snoc {os before : List (ServeEvent ι α)} {a b : ServeEvent ι α}
    (h : before ++ [a] <+: os ++ [b]) : before ++ [a] <+: os ∨ before = os ∧ a = b := by
  rcases List.prefix_concat_iff.mp h with heq | hold
  · obtain ⟨rfl, hab⟩ := List.append_inj' heq rfl
    exact Or.inr ⟨rfl, (List.cons.inj hab).1⟩
  · exact Or.inl hold

/-- A request that has read what it computes from stores the payload and answers with it. -/
theorem ServeInv.store (h : ServeInv agg ttl companyOf now os c) (hle : now ≤ m.mono)
    {views : List View} (hl : c.sess i = .reading views) {result : α}
    (hresult : agg (companyOf i) views = some (.ok result)) :
    ServeInv agg ttl companyOf m.mono (os ++ [.stored i result m.mono, .answered i result m.mono])
      ⟨c.shared.set ttl m.mono (companyOf i) result, Function.update c.sess i .finished⟩ := by
  have hviews : ∀ new : List (ServeEvent ι α), viewsRead i new = [] →
      agg (companyOf i) (viewsRead i (os ++ new)) = some (.ok result) := by
    intro new hnew
    rw [viewsRead_append, hnew, List.append_nil, h.reading i views hl]
    exact hresult
  refine h.advance hle (fun _ _ => rfl) (fun key e he => ?_) (by simp) (fun _ he => nomatch he)
    (fun j payload s hs => ?_) (fun hf => absurd (hl.symm.trans hf) nofun)
    fun before j payload t hp => ?_
  · unfold TTLCache.set at he
    dsimp only at he
    split at he
    · rename_i hkey
      cases he
      exact Or.inr ⟨m.mono, List.mem_cons_self, hkey.symm, rfl⟩
    · exact Or.inl he
  · rcases List.mem_cons.mp hs with heq | hs
    · cases heq
      exact ⟨rfl, rfl, le_rfl, hviews _ rfl⟩
    · cases List.mem_singleton.mp hs
  · -- the payload stands in the cache before the response goes out
    have hsplit : os ++ [.stored i result m.mono, .answered i result m.mono] =
        (os ++ [.stored i result m.mono]) ++ [.answered i result m.mono] := by
      rw [List.append_assoc]
      rfl
    rw [hsplit] at hp
    rcases prefix_snoc hp with hp | ⟨rfl, heq⟩
    · refine (prefix_snoc hp).imp_right ?_
      rintro ⟨-, heq⟩
      cases heq
    · cases heq
      exact Or.inr ⟨i, m.mono, List.mem_append_right _ List.mem_cons_self, rfl, hviews _ rfl,
        Or.inl rfl⟩

theorem ServeInv.step (h : ServeInv agg ttl companyOf now os c) (hle : now ≤ m.mono) :
    ServeInv agg ttl companyOf m.mono
      (os ++ (serveStep agg ttl companyOf i m c.shared (c.sess i)).1)
      ((interleave (serveStep agg ttl companyOf)).step (i, m) c).2 := by
  have hmove := serveStep_move agg ttl companyOf i m c.shared (c.sess i)
  have hstep : ((interleave (serveStep agg ttl companyOf)).step (i, m) c).2 =
      ⟨(serveStep agg ttl companyOf i m c.shared (c.sess i)).2.1, Function.update c.sess i
        (serveStep agg ttl companyOf i m c.shared (c.sess i)).2.2⟩ := rfl
  rw [hstep]
  generalize serveStep agg ttl companyOf i m c.shared (c.sess i) = r at hmove
  generalize hl : c.sess i = l at hmove
  have hbusy : ∀ {P : Prop}, l ≠ .finished → c.sess i = .finished → P :=
    fun hne hf => absurd (hl.symm.trans hf) hne
  cases hmove with
  | find =>
    exact h.silent hle (fun _ _ he => he) (fun _ => h.unread i (Or.inl hl))
      (fun _ he => nomatch he) (hbusy nofun)
  | miss cache' hsub =>
    refine h.silent hle hsub (by simp) (fun views he => ?_) (hbusy nofun)
    cases he
    exact h.unread i (Or.inr hl)
  | hit entry hentry hlive =>
    refine h.advance hle (fun _ _ => rfl) (fun _ _ he => Or.inl he) (by simp)
      (fun _ he => nomatch he) (fun _ _ _ hs => ?_) (hbusy nofun) fun before j payload t hp => ?_
    · cases List.mem_singleton.mp hs
    · refine (prefix_snoc hp).imp_right ?_
      rintro ⟨rfl, heq⟩
      cases heq
      obtain ⟨k, s, hs, hk, hexpires⟩ := h.entries _ _ hentry
      obtain ⟨-, hpast, hagg⟩ := h.computed k _ s hs
      exact ⟨k, s, hs, hk, hagg, Or.inr ⟨hpast.trans hle, hexpires ▸ hlive⟩⟩
  | read views =>
    refine h.advance hle (fun j hj => ?_) (fun _ _ he => Or.inl he) (by simp)
      (fun views' he => ?_) (fun _ _ _ hs => ?_) (hbusy nofun) fun before j payload t hp => ?_
    · exact List.filterMap_cons_none (if_neg (Ne.symm hj))
    · cases he
      rw [viewsRead_append, h.reading i views hl]
      exact congrArg (views ++ ·) (List.filterMap_cons_some (if_pos rfl))
    · cases List.mem_singleton.mp hs
    · refine (prefix_snoc hp).imp_right ?_
      rintro ⟨-, heq⟩
      cases heq
  | store views result hresult => exact h.store hle hl hresult
  | stop l =>
    exact h.silent hle (fun _ _ he => he) (by simp) (fun _ he => nomatch he) fun _ => rfl

theorem ServeInv.later (h : ServeInv agg ttl companyOf now os c) {now' : Time}
    (hle : now ≤ now') : ServeInv agg ttl companyOf now' os c :=
  ⟨h.entries, h.unread, h.reading, fun j payload s hs =>
    (h.computed j payload s hs).imp_right (And.imp_left fun hpast => hpast.trans hle),
    h.justified⟩

/-- The cache of a process just started, before any request. -/
def notServed : Conf ι (TTLCache Uuid α) Serving := ⟨.empty, fun _ => .idle⟩

variable (agg ttl companyOf)

theorem serveInv_run (sched : List (ι × Moment))
    (hclock : sched.Pairwise fun a b => a.2.mono ≤ b.2.mono) (hnow : ∀ e ∈ sched, e.2.mono ≤ now) :
    ServeInv agg ttl companyOf now (observed (serveStep agg ttl companyOf) sched notServed)
      ((interleave (serveStep agg ttl companyOf)).exec sched notServed) := by
  induction sched using List.reverseRecOn generalizing now with
  | nil =>
    refine ⟨fun _ _ h => (nomatch h), fun _ _ => rfl, fun _ _ h => (nomatch h),
      fun _ _ _ h => (nomatch h), fun before _ _ _ h => ?_⟩
    exact absurd (List.prefix_nil.mp h) (by simp)
  | append_singleton sched e ih =>
    obtain ⟨hsched, -, hlast⟩ := List.pairwise_append.mp hclock
    have hinv := ih hsched fun e' he' => hlast e' he' e List.mem_cons_self
    rw [observed_snoc, Machine.exec_snoc]
    exact (hinv.step le_rfl).later (hnow e (List.mem_append_right _ List.mem_cons_self))

/-- Every response of every interleaving is justified by what was observed before it. -/
theorem responses_justified (sched : List (ι × Moment))
    (hclock : sched.Pairwise fun a b => a.2.mono ≤ b.2.mono) (before : List (ServeEvent ι α))
    (i : ι) (payload : α) (t : Time)
    (h : before ++ [.answered i payload t] <+:
      observed (serveStep agg ttl companyOf) sched notServed) :
    Justified agg ttl companyOf before i payload t := by
  cases sched using List.reverseRecOn with
  | nil => exact absurd (List.prefix_nil.mp h) (by simp)
  | append_singleton sched e =>
    have hnow : ∀ e' ∈ sched ++ [e], e'.2.mono ≤ e.2.mono := by
      intro e' he'
      rcases List.mem_append.mp he' with he' | he'
      · exact (List.pairwise_append.mp hclock).2.2 e' he' e List.mem_cons_self
      · rw [List.mem_singleton.mp he']
    exact (serveInv_run agg ttl companyOf _ hclock hnow).justified before i payload t h

/-! ## A session alone is the handler -/

/-- What is observed of a result, and what it leaves in the cache. -/
def finish (i : ι) (t : Time) (cache : TTLCache Uuid α) (result : Except HttpException α) :
    List (ServeEvent ι α) × TTLCache Uuid α × Serving :=
  match result with
  | .error _ => ([], cache, .finished)
  | .ok payload => ([.stored i payload t, .answered i payload t],
      cache.set ttl t (companyOf i) payload, .finished)

omit [DecidableEq ι] in
theorem moves_serve_finished (i : ι) (m : Moment) (n : Nat) (cache : TTLCache Uuid α) :
    moves (serveStep agg ttl companyOf) i m n cache .finished = ([], cache, .finished) := by
  induction n with
  | zero => rfl
  | succ n ih =>
    rw [moves]
    simp only [serveStep, ih, List.nil_append]

omit [DecidableEq ι] in
theorem moves_reading {i : ι} {m : Moment} {result : Except HttpException α} {n : Nat}
    (hwait : ∀ k < n, agg (companyOf i) (List.replicate k m.toView) = none)
    (hresult : agg (companyOf i) (List.replicate n m.toView) = some result)
    (cache : TTLCache Uuid α) {j k : Nat} (hjk : k + j = n) (extra : Nat) :
    moves (serveStep agg ttl companyOf) i m (j + 1 + extra) cache
        (.reading (List.replicate k m.toView)) =
      (List.replicate j (.read i m.toView) ++ (finish ttl companyOf i m.mono cache result).1,
        (finish ttl companyOf i m.mono cache result).2) := by
  induction j generalizing k with
  | zero =>
    obtain rfl : k = n := hjk
    rw [Nat.add_right_comm, moves]
    cases result with
    | error e =>
      simp only [serveStep, hresult, finish, Nat.zero_add, moves_serve_finished]
      rfl
    | ok payload =>
      simp only [serveStep, hresult, finish, Nat.zero_add, moves_serve_finished]
      rfl
  | succ j ih =>
    have hstep : serveStep agg ttl companyOf i m cache (.reading (List.replicate k m.toView)) =
        ([.read i m.toView], cache, .reading (List.replicate (k + 1) m.toView)) := by
      simp only [serveStep, hwait k (by omega), List.replicate_succ']
    rw [show j + 1 + 1 + extra = j + 1 + extra + 1 by omega, moves, hstep]
    simp only [ih (k := k + 1) (by omega)]
    rfl

omit [DecidableEq ι] in
/-- The lookup: the company is missing, a live entry answers, or the statements follow. -/
theorem moves_lookup (p : Platform) (env : Env) (db : Db) (place : Uuid → Nat)
    (result : Except HttpException α) (i : ι) (cache : TTLCache Uuid α) :
    let first := moves (serveStep agg (seconds p.settings.statsCacheTtlSeconds) companyOf) i
      ⟨⟨db, place⟩, env.mono 0⟩ 2 cache .idle
    let r := cachedByCompany p env result (companyOf i) db cache
    (∃ cache', first = ([], cache', .reading []) ∧
      r = match result with
        | .error e => (.error e, cache')
        | .ok payload => (.ok payload, cache'.set (seconds p.settings.statsCacheTtlSeconds)
            (env.mono 1) (companyOf i) payload)) ∨
    first.2 = (r.2, .finished) ∧
      ((first.1 = [] ∧ ∃ e, r.1 = .error e) ∨
        ∃ payload, first.1 = [.answered i payload (env.mono 0)] ∧ r.1 = .ok payload) := by
  intro first r
  simp only [first, r, moves, serveStep, cachedByCompany]
  cases requireCompany (companyOf i) db with
  | error e => exact Or.inr ⟨rfl, Or.inl ⟨rfl, e, rfl⟩⟩
  | ok u =>
    cases hget : cache.get (env.mono 0) (companyOf i) with
    | mk found cache' =>
      cases found with
      | none =>
        refine Or.inl ⟨cache', ?_, ?_⟩
        · simp only [List.nil_append]
        · cases result <;> rfl
      | some payload =>
        refine Or.inr ⟨?_, Or.inr ⟨payload, ?_, rfl⟩⟩
        · rfl
        · simp only [List.nil_append, List.append_nil]

/-- A request whose steps follow each other, `n` statements among them, with one reading of the
    clock for the lookup and one for the store, answers and leaves `r`. -/
def ServesAs (p : Platform) (env : Env) (db : Db) (place : Uuid → Nat) (i : ι) (n : Nat)
    (cache : TTLCache Uuid α) (r : Except HttpException α × TTLCache Uuid α) : Prop :=
  let act := serveStep agg (seconds p.settings.statsCacheTtlSeconds) companyOf
  let run := List.replicate 2 (i, Moment.mk ⟨db, place⟩ (env.mono 0)) ++
    List.replicate (n + 1) (i, Moment.mk ⟨db, place⟩ (env.mono 1))
  ((interleave act).exec run ⟨cache, fun _ => .idle⟩).shared = r.2 ∧
    ∀ payload, (∃ t, .answered i payload t ∈ observed act run ⟨cache, fun _ => .idle⟩) ↔
      r.1 = .ok payload

theorem serve_alone (p : Platform) (env : Env) (db : Db) (place : Uuid → Nat)
    {result : Except HttpException α} {n : Nat} (i : ι)
    (hwait : ∀ k < n, agg (companyOf i) (List.replicate k ⟨db, place⟩) = none)
    (hresult : agg (companyOf i) (List.replicate n ⟨db, place⟩) = some result)
    (cache : TTLCache Uuid α) :
    ServesAs agg companyOf p env db place i n cache
      (cachedByCompany p env result (companyOf i) db cache) := by
  have hlookup := moves_lookup agg companyOf p env db place result i cache
  unfold ServesAs
  dsimp only
  rw [Machine.exec_append, observed_append, exec_replicate, exec_replicate, observed_replicate,
    observed_replicate]
  simp only [Function.update_self]
  generalize hfirst : moves (serveStep agg (seconds p.settings.statsCacheTtlSeconds) companyOf) i
    ⟨⟨db, place⟩, env.mono 0⟩ 2 cache .idle = first at hlookup
  rcases hlookup with ⟨cache', rfl, hr⟩ | ⟨hrest, hanswer⟩
  · have hreading := moves_reading agg (seconds p.settings.statsCacheTtlSeconds) companyOf
      (m := ⟨⟨db, place⟩, env.mono 1⟩) hwait hresult cache' (Nat.zero_add n) 0
    simp only [List.replicate_zero, Nat.add_zero] at hreading
    simp only [hreading, hr, List.nil_append]
    cases result with
    | error e => simp [finish]
    | ok payload' => simp [finish, eq_comm]
  · simp only [hrest, moves_serve_finished, List.append_nil]
    rcases hanswer with ⟨hnil, e, he⟩ | ⟨payload, hone, hok⟩
    · simp [hnil, he]
    · simp [hone, hok, eq_comm]

end

/-- `get_company_stats`; with too few reviews there is one statement. -/
theorem getCompanyStats_alone {ι : Type} [DecidableEq ι] (p : Platform) (env : Env) (db : Db)
    (place : Uuid → Nat) (companyOf : ι → Uuid) (i : ι) (cache : TTLCache Uuid CompanyStats) :
    ∃ n, ServesAs (statsAggregation p) companyOf p env db place i n cache
      (getCompanyStats p env (companyOf i) db cache) := by
  have hviews : ∀ k, (fun i => ((List.replicate (k + 1) (View.mk db place)).getD i
      ⟨db, place⟩).db) = fun _ => db := fun k => by
    funext i
    rw [List.getD_eq_getElem?_getD, List.getElem?_replicate]
    split <;> rfl
  by_cases hfew : countPublishedReviews db (companyOf i) < p.settings.statsMinPublishedReviews
  · refine ⟨1, serve_alone _ _ p env db place i (fun k hk => ?_) ?_ cache⟩
    · obtain rfl : k = 0 := by omega
      rfl
    · exact (if_pos (Or.inl hfew)).trans (congrArg (fun view => some (computeCompanyStats p view
        (companyOf i))) (hviews 0))
  · refine ⟨8, serve_alone _ _ p env db place i (fun k hk => ?_) ?_ cache⟩
    · cases k with
      | zero => rfl
      | succ k => exact if_neg (not_or.mpr ⟨hfew, by rw [List.length_replicate]; omega⟩)
    · exact (if_pos (Or.inr (by simp))).trans (congrArg (fun view => some (computeCompanyStats p
        view (companyOf i))) (hviews 7))

theorem getLayoffTimeline_alone {ι : Type} [DecidableEq ι] (p : Platform) (env : Env) (db : Db)
    (companyOf : ι → Uuid) (i : ι) (cache : TTLCache Uuid LayoffTimeline) :
    ServesAs timelineAggregation companyOf p env db (env.place 0) i 1 cache
      (getLayoffTimeline p env (companyOf i) db cache) := by
  refine serve_alone _ _ p env db (env.place 0) i (fun k hk => ?_) rfl cache
  obtain rfl : k = 0 := by omega
  rfl

/-- The cache answers a `get` with the most recent `set` of the key that is not older than
    `ttl`, and the two cached endpoints answer with what was computed for the company, by the
    request itself or stored at most the time to live before. -/
theorem ttl_cache {κ β ι : Type} [DecidableEq κ] [DecidableEq ι] (p : Platform) :
    (∀ (ttl : Time) (ops : List (Time × CacheOp κ β)) (now : Time) (key : κ) (value : β),
      ops.Pairwise (fun a b => a.1 ≤ b.1) → (∀ e ∈ ops, e.1 ≤ now) →
        ((((TTLCache.machine ttl).exec ops .empty).get now key).1 = some value ↔
          ∃ at_, LastSet ops key value at_ ∧ now ≤ at_ + ttl)) ∧
    ∀ (companyOf : ι → Uuid) (sched : List (ι × Moment)),
      sched.Pairwise (fun a b => a.2.mono ≤ b.2.mono) →
        (∀ before i payload t, before ++ [.answered i payload t] <+:
            observed (serveStep (statsAggregation p) (seconds p.settings.statsCacheTtlSeconds)
              companyOf) sched notServed →
          Justified (statsAggregation p) (seconds p.settings.statsCacheTtlSeconds) companyOf
            before i payload t) ∧
        ∀ before i payload t, before ++ [.answered i payload t] <+:
            observed (serveStep timelineAggregation (seconds p.settings.statsCacheTtlSeconds)
              companyOf) sched notServed →
          Justified timelineAggregation (seconds p.settings.statsCacheTtlSeconds) companyOf
            before i payload t :=
  ⟨fun ttl ops _ key value hclock hnow => get_eq_some_iff ttl ops hclock key hnow value,
    fun companyOf sched hclock =>
      ⟨responses_justified _ _ companyOf sched hclock,
        responses_justified _ _ companyOf sched hclock⟩⟩

/-- Request 1 comes 30 seconds after request 0 and is answered from the cache. -/
theorem secondRequest_justified :
    let view : View := ⟨smallDb, fun _ => 0⟩
    let payload : LayoffTimeline := ⟨0, []⟩
    Justified timelineAggregation (seconds 60) (fun _ : Nat => 5)
      [.read 0 view, .stored 0 payload 0, .answered 0 payload 0] 1 payload 30000000 :=
  ((ttl_cache (κ := String) (β := Nat) (ι := Nat) smallPlatform).2 (fun _ => 5)
    (List.replicate 4 (0, ⟨⟨smallDb, fun _ => 0⟩, 0⟩) ++
      List.replicate 2 (1, ⟨⟨smallDb, fun _ => 0⟩, 30000000⟩)) (by decide)).2 _ 1 ⟨0, []⟩ 30000000
    ⟨[], rfl⟩

end LinkedOut
