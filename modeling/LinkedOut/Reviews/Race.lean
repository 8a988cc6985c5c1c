/-
  Concurrent submissions, corroborations and employer responses. Each is a session with a
  step for every lookup and a last one for the commit; any other request is one step.

  One row a key is what the three unique constraints give. That nobody corroborates an own
  review and no employer answers for another company is only looked up before the commit:
  it still holds at the commit because reviews and employer accounts keep the columns that
  were looked up (`Grows`). `post_alone`: a session whose steps follow each other is the
  sequential handler. `relational_integrity`: the rules hold in every state of every
  interleaving, the rows stored are those of the requests answered 201, and corroborations
  and responses are only ever added.
-/
import LinkedOut.Interleave
import LinkedOut.History

namespace LinkedOut

/-! ## Posts -/

/-- What one row at most may be stored for. -/
inductive PostKey where
  | review (userId companyId : Uuid)
  | corroboration (reviewId userId : Uuid)
  | response (reviewId : Uuid)
  deriving DecidableEq

/-- A stored row: its key and its id. -/
structure Posted where
  key : PostKey
  id : Uuid
  deriving DecidableEq

def Review.post (r : Review) : Posted := ⟨.review r.userId r.companyId, r.id⟩

def Corroboration.post (c : Corroboration) : Posted := ⟨.corroboration c.reviewId c.userId, c.id⟩

def EmployerResponse.post (a : EmployerResponse) : Posted := ⟨.response a.reviewId, a.id⟩

def Db.posts (db : Db) : List Posted :=
  db.reviews.rows.map Review.post ++
    (db.corroborations.rows.map Corroboration.post ++
      db.employerResponses.rows.map EmployerResponse.post)

/-- The requests that post. -/
def Request.posts : Request → Bool
  | submitReview _ _ | corroborateReview _ _ _ | respondToReview _ _ _ => true
  | _ => false

/-! ## The sessions -/

/-- One of the three posts, or any request that is none of them. -/
inductive PostCall where
  | submitReview (body : ReviewCreate) (token : Option String)
  | corroborateReview (reviewId : Uuid) (comment token : Option String)
  | respondToReview (reviewId : Uuid) (responseText : String) (token : Option String)
  | other (req : Request) (hreq : req.posts = false)

def PostCall.request : PostCall → Request
  | submitReview body token => .submitReview body token
  | corroborateReview reviewId comment token => .corroborateReview reviewId comment token
  | respondToReview reviewId responseText token => .respondToReview reviewId responseText token
  | other req _ => req

/-- Where a session stands: what it has looked up so far. -/
inductive Posting where
  | idle
  | submission (l : ReviewSubmission)
  | corroborator (user : User)
  | ofAnother (user : User)
  | newCorroborator (user : User)
  | responder (account : EmployerAccount)
  | ofOwnCompany (account : EmployerAccount)
  | newResponder (account : EmployerAccount)
  | finished

/-- A lookup: the session goes on, or its request is refused. -/
def looksUp (s : Server) (r : Except HttpException Posting) : List Posted × Server × Posting :=
  match r with
  | .error _ => ([], s, .finished)
  | .ok l => ([], s, l)

/-- The commit: the request is answered 201, or it is refused and leaves no row. -/
def stores (s : Server) (r : Except HttpException (Db × Posted)) :
    List Posted × Server × Posting :=
  match r with
  | .error _ => ([], s, .finished)
  | .ok (db, posted) => ([posted], { s with db }, .finished)

/-- A submission: the statements of `submit_review`. -/
def submitStep (p : Platform) (body : ReviewCreate) (token : Option String) (env : Env)
    (s : Server) : Posting → List Posted × Server × Posting
  | .idle => statement .received
  | .submission l => statement l
  | _ => ([], s, .finished)
where
  statement : ReviewSubmission → List Posted × Server × Posting :=
    submitReviewStep p body token env s.db (fun r => looksUp s (r.map .submission))
      fun r => stores s (r.map (Prod.map id Review.post))

/-- The statements of `corroborate_review`: the user, the review, the corroboration that is
    there already, then the commit of the new one. -/
def corroborateStep (p : Platform) (reviewId : Uuid) (comment token : Option String) (env : Env)
    (s : Server) : Posting → List Posted × Server × Posting
  | .idle => looksUp s do
    let user ← requireTier p env .phone token s.db
    checkComment comment
    return .corroborator user
  | .corroborator user => looksUp s do
    let review ← requireReview reviewId s.db
    raiseIf (review.userId == user.id)
      { status := 400, detail := "you cannot corroborate your own review" }
    return .ofAnother user
  | .ofAnother user => looksUp s do
    refuseExisting (.corroborationBy reviewId user.id) alreadyCorroborated s.db
    return .newCorroborator user
  | .newCorroborator user => stores s do
    let corroboration := newCorroboration env reviewId user.id comment
    let corroborations ← commit env (s.db.corroborations.insert corroboration) alreadyCorroborated
    return ({ s.db with corroborations }, corroboration.post)
  | _ => ([], s, .finished)

/-- The statements of `respond_to_review`: the account, the review, the response that is there
    already, then the commit of the new one. -/
def respondStep (p : Platform) (reviewId : Uuid) (responseText : String) (token : Option String)
    (env : Env) (s : Server) : Posting → List Posted × Server × Posting
  | .idle => looksUp s do
    let account ← getCurrentEmployerAccount p env token s.db
    validate [("body.response_text", lengthIn 1 responseTextMaxLen responseText)]
    return .responder account
  | .responder account => looksUp s do
    let review ← requireReview reviewId s.db
    raiseIf (review.companyId != account.companyId)
      { status := 403, detail := "you may only respond to reviews about your own company" }
    return .ofOwnCompany account
  | .ofOwnCompany account => looksUp s do
    refuseExisting (.responseTo reviewId) alreadyAnswered s.db
    return .newResponder account
  | .newResponder account => stores s do
    let response := newResponse env reviewId account.id responseText
    let employerResponses ← commit env (s.db.employerResponses.insert response) alreadyAnswered
    return ({ s.db with employerResponses }, response.post)
  | _ => ([], s, .finished)

/-- A request that is none of the three is one step. -/
def otherStep (p : Platform) (req : Request) (env : Env) (s : Server) :
    Posting → List Posted × Server × Posting
  | .idle => ([], (handle p env req s).2, .finished)
  | _ => ([], s, .finished)

/-- The next step of session `i`. -/
def postStep {ι : Type} (p : Platform) (calls : ι → PostCall) (i : ι) (env : Env) (s : Server)
    (l : Posting) : List Posted × Server × Posting :=
  match calls i with
  | .submitReview body token => submitStep p body token env s l
  | .corroborateReview reviewId comment token => corroborateStep p reviewId comment token env s l
  | .respondToReview reviewId responseText token =>
    respondStep p reviewId responseText token env s l
  | .other req _ => otherStep p req env s l

/-! ## A session alone is the handler -/

/-- What the handler answers and leaves, as a session shows it. -/
def Shows (r : Response × Server) (run : List Posted × Server × Posting) : Prop :=
  run.2.1 = r.2 ∧ (run.1 ≠ [] ↔ r.1.isOk = true)

section

variable {ι : Type} {p : Platform} {calls : ι → PostCall} {i : ι} {env : Env} {s s' : Server}
  {l l' : Posting} {n : Nat}

theorem postStep_finished (p : Platform) (calls : ι → PostCall) (i : ι) (env : Env) (s : Server) :
    postStep p calls i env s .finished = ([], s, .finished) := by
  unfold postStep
  cases calls i <;> rfl

theorem moves_finished : moves (postStep p calls) i env n s .finished = ([], s, .finished) := by
  induction n with
  | zero => rfl
  | succ n ih =>
    rw [moves, postStep_finished]
    simp only [ih, List.nil_append]

theorem Shows.refused {e : HttpException}
    (h : postStep p calls i env s l = ([], s, .finished)) :
    Shows (.error e, s) (moves (postStep p calls) i env (n + 1) s l) := by
  rw [moves, h]
  simp only [moves_finished, List.nil_append]
  exact ⟨rfl, fun hne => absurd rfl hne, fun hok => by cases hok⟩

section

variable {α β γ δ : Type} {x : Except HttpException α} {payload : δ → Payload}

/-- A step that is one lookup of the handler. -/
theorem Shows.lookup {f : α → Except HttpException (Db × δ)} (next : α → Posting)
    (h : postStep p calls i env s l = looksUp s (x >>= fun a => .ok (next a)))
    (hrest : ∀ a, Shows (answerCommit s (f a) payload)
      (moves (postStep p calls) i env n s (next a))) :
    Shows (answerCommit s (x >>= f) payload) (moves (postStep p calls) i env (n + 1) s l) := by
  cases x with
  | error e => exact .refused h
  | ok a =>
    have hstep : postStep p calls i env s l = ([], s, next a) := h
    rw [moves, hstep]
    exact hrest a

/-- A step that is one lookup and the check on what it has found. -/
theorem Shows.checked {y : α → Except HttpException β}
    {f : α → β → Except HttpException (Db × δ)} (next : α → Posting)
    (h : postStep p calls i env s l = looksUp s (x >>= fun a => y a >>= fun _ => .ok (next a)))
    (hrest : ∀ a b, Shows (answerCommit s (f a b) payload)
      (moves (postStep p calls) i env n s (next a))) :
    Shows (answerCommit s (x >>= fun a => y a >>= f a) payload)
      (moves (postStep p calls) i env (n + 1) s l) := by
  cases x with
  | error e => exact .refused h
  | ok a => exact .lookup (x := y a) (fun _ => next a) h (hrest a)

/-- The last step: the handler's commit. -/
theorem Shows.stored {db : α → Db} {out : α → δ} {posted : Posted}
    (h : postStep p calls i env s l = stores s (x >>= fun a => .ok (db a, posted))) :
    Shows (answerCommit s (x >>= fun a => .ok (db a, out a)) payload)
      (moves (postStep p calls) i env (n + 1) s l) := by
  cases x with
  | error e => exact .refused h
  | ok a =>
    have hstep : postStep p calls i env s l =
        ([posted], { s with db := db a }, .finished) := h
    rw [moves, hstep]
    simp only [moves_finished, List.append_nil]
    exact ⟨rfl, fun _ => rfl, fun _ => List.cons_ne_nil _ _⟩

end

theorem submit_alone {body : ReviewCreate} {token : Option String}
    (hcall : calls i = .submitReview body token) :
    Shows (handle p env (.submitReview body token) s)
      (moves (postStep p calls) i env 5 s .idle) := by
  have hstep : postStep p calls i env s = submitStep p body token env s := by
    funext l
    simp only [postStep, hcall]
  have hask : ∀ {α : Type} (x : Except HttpException α) (next : α → ReviewSubmission),
      looksUp s ((x >>= fun a => .ok (next a)).map .submission) =
        looksUp s (x >>= fun a => .ok (.submission (next a))) := by
    intro α x next
    rw [bind_map]
    rfl
  refine .checked (fun user => .submission (.author user)) ?_ fun user _ => ?_
  · rw [hstep]
    exact congrArg (looksUp s) ((bind_map _ _ _).trans (congrArg _ (funext fun user =>
      bind_map _ _ _)))
  refine .lookup (fun _ => .submission (.authorAtCompany user)) (by rw [hstep]; exact hask _ _)
    fun _ => ?_
  refine .lookup (fun _ => .submission (.authorInLimit user (env.now 1)))
    (by rw [hstep]; exact hask _ _) fun _ => ?_
  refine .lookup (fun _ => .submission (.newAuthor user (env.now 1)))
    (by rw [hstep]; exact hask _ _) fun _ => ?_
  exact .stored (by rw [hstep]; exact congrArg (stores s) (bind_map _ _ _))

theorem corroborate_alone {reviewId : Uuid} {comment token : Option String}
    (hcall : calls i = .corroborateReview reviewId comment token) :
    Shows (handle p env (.corroborateReview reviewId comment token) s)
      (moves (postStep p calls) i env 5 s .idle) := by
  have hstep : postStep p calls i env s = corroborateStep p reviewId comment token env s := by
    funext l
    simp only [postStep, hcall]
  refine .checked (fun user => .corroborator user) (by rw [hstep]; rfl) fun user _ => ?_
  refine .checked (fun _ => .ofAnother user) (by rw [hstep]; rfl) fun _ _ => ?_
  refine .lookup (fun _ => .newCorroborator user) (by rw [hstep]; rfl) fun _ => ?_
  exact .stored (by rw [hstep]; rfl)

theorem respond_alone {reviewId : Uuid} {responseText : String} {token : Option String}
    (hcall : calls i = .respondToReview reviewId responseText token) :
    Shows (handle p env (.respondToReview reviewId responseText token) s)
      (moves (postStep p calls) i env 5 s .idle) := by
  have hstep : postStep p calls i env s = respondStep p reviewId responseText token env s := by
    funext l
    simp only [postStep, hcall]
  refine .checked (fun account => .responder account) (by rw [hstep]; rfl) fun account _ => ?_
  refine .checked (fun _ => .ofOwnCompany account) (by rw [hstep]; rfl) fun _ _ => ?_
  refine .lookup (fun _ => .newResponder account) (by rw [hstep]; rfl) fun _ => ?_
  exact .stored (by rw [hstep]; rfl)

end

/-- The steps of a post, one after the other and with the same draws, leave what the handler
    leaves, and they show a 201 when it gives one; any other request is its handler. -/
theorem post_alone {ι : Type} [DecidableEq ι] (p : Platform) (calls : ι → PostCall) (i : ι)
    (env : Env) (s : Server) :
    let run := List.replicate 5 (i, env)
    let r := handle p env (calls i).request s
    ((interleave (postStep p calls)).exec run ⟨s, fun _ => .idle⟩).shared = r.2 ∧
      (observed (postStep p calls) run ⟨s, fun _ => .idle⟩ ≠ [] ↔
        (calls i).request.posts = true ∧ r.1.isOk = true) := by
  intro run r
  obtain ⟨hshared, hobserved⟩ := run_replicate (postStep p calls) i env 5 ⟨s, fun _ => .idle⟩
  rw [hshared, hobserved]
  have hpost : Shows r (moves (postStep p calls) i env 5 s .idle) → (calls i).request.posts = true →
      (moves (postStep p calls) i env 5 s .idle).2.1 = r.2 ∧
        ((moves (postStep p calls) i env 5 s .idle).1 ≠ [] ↔
          (calls i).request.posts = true ∧ r.1.isOk = true) :=
    fun hshows hposts => ⟨hshows.1, hshows.2.trans (iff_and_self.mpr fun _ => hposts)⟩
  cases hcall : calls i with
  | submitReview body token =>
    simp only [r, hcall] at hpost ⊢
    exact hpost (submit_alone hcall) rfl
  | corroborateReview reviewId comment token =>
    simp only [r, hcall] at hpost ⊢
    exact hpost (corroborate_alone hcall) rfl
  | respondToReview reviewId responseText token =>
    simp only [r, hcall] at hpost ⊢
    exact hpost (respond_alone hcall) rfl
  | other req hreq =>
    have hfirst : postStep p calls i env s .idle = ([], (handle p env req s).2, .finished) := by
      simp only [postStep, hcall]
      rfl
    rw [moves, hfirst]
    simp only [moves_finished, List.append_nil, r, hcall, PostCall.request]
    exact ⟨trivial, fun hne => absurd rfl hne, fun hok => absurd (hreq.symm.trans hok.1) (by decide)⟩

/-! ## The rules -/

/-- The review is stored and by somebody else. -/
def ByAnother (db : Db) (reviewId userId : Uuid) : Prop :=
  ∃ r ∈ db.reviews.rows, r.id = reviewId ∧ r.userId ≠ userId

/-- The review is stored and of the company of the account. -/
def OfOwnCompany (db : Db) (reviewId accountId : Uuid) : Prop :=
  ∃ r ∈ db.reviews.rows, r.id = reviewId ∧
    ∃ a ∈ db.employerAccounts.rows, a.id = accountId ∧ a.companyId = r.companyId

/-- One row a key, no corroboration of an own review, no response for another company. -/
structure RelationalIntegrity (db : Db) : Prop where
  oneForKey : (db.posts.map Posted.key).Nodup
  corroborations : ∀ c ∈ db.corroborations.rows, ByAnother db c.reviewId c.userId
  responses : ∀ a ∈ db.employerResponses.rows, OfOwnCompany db a.reviewId a.employerAccountId

theorem nodup_keys {α κ : Type} [Record α] [DecidableEq κ] (t : Table α) (key : α → κ)
    (hkey : ∀ a b, key a = key b → clash a b = true) : (t.rows.map key).Nodup := by
  refine List.pairwise_map.mpr (t.distinct.imp fun {a b} hab heq => ?_)
  rw [hkey a b heq] at hab
  cases hab

/-- The three unique constraints: no key has two rows. -/
theorem nodup_posts (db : Db) : (db.posts.map Posted.key).Nodup := by
  unfold Db.posts
  rw [List.map_append, List.map_append, List.map_map, List.map_map, List.map_map]
  have hreviews : (db.reviews.rows.map (Posted.key ∘ Review.post)).Nodup := by
    refine nodup_keys db.reviews _ fun a b h => ?_
    injection h with huser hcompany
    simp [clash, huser, hcompany]
  have hcorroborations : (db.corroborations.rows.map (Posted.key ∘ Corroboration.post)).Nodup := by
    refine nodup_keys db.corroborations _ fun a b h => ?_
    injection h with hreview huser
    simp [clash, hreview, huser]
  have hresponses :
      (db.employerResponses.rows.map (Posted.key ∘ EmployerResponse.post)).Nodup := by
    refine nodup_keys db.employerResponses _ fun a b h => ?_
    injection h with hreview
    simp [clash, hreview]
  refine List.nodup_append.mpr ⟨hreviews, List.nodup_append.mpr ⟨hcorroborations, hresponses, ?_⟩, ?_⟩
  · intro k hk k' hk' heq
    obtain ⟨c, -, rfl⟩ := List.mem_map.mp hk
    obtain ⟨a, -, rfl⟩ := List.mem_map.mp hk'
    cases heq
  · intro k hk k' hk' heq
    obtain ⟨r, -, rfl⟩ := List.mem_map.mp hk
    rcases List.mem_append.mp hk' with hk' | hk'
    · obtain ⟨c, -, rfl⟩ := List.mem_map.mp hk'
      cases heq
    · obtain ⟨a, -, rfl⟩ := List.mem_map.mp hk'
      cases heq

/-! ## What the database keeps -/

/-- Reviews keep their id, author and company, corroborations and responses are only added,
    and the employer accounts stay. -/
structure Grows (db db' : Db) : Prop where
  reviews : ∀ r ∈ db.reviews.rows, ∃ r' ∈ db'.reviews.rows,
    r'.id = r.id ∧ r'.userId = r.userId ∧ r'.companyId = r.companyId
  corroborations : db.corroborations.rows <+: db'.corroborations.rows
  employerResponses : db.employerResponses.rows <+: db'.employerResponses.rows
  employerAccounts : db'.employerAccounts = db.employerAccounts

theorem Grows.refl (db : Db) : Grows db db :=
  ⟨fun r hr => ⟨r, hr, rfl, rfl, rfl⟩, List.prefix_rfl, List.prefix_rfl, rfl⟩

theorem Grows.trans {db db' db'' : Db} (h : Grows db db') (h' : Grows db' db'') : Grows db db'' := by
  refine ⟨fun r hr => ?_, h.corroborations.trans h'.corroborations,
    h.employerResponses.trans h'.employerResponses, h'.employerAccounts.trans h.employerAccounts⟩
  obtain ⟨r', hr', hid, huser, hcompany⟩ := h.reviews r hr
  obtain ⟨r'', hr'', hid', huser', hcompany'⟩ := h'.reviews r' hr'
  exact ⟨r'', hr'', hid'.trans hid, huser'.trans huser, hcompany'.trans hcompany⟩

theorem Grows.byAnother {db db' : Db} (h : Grows db db') {reviewId userId : Uuid}
    (hr : ByAnother db reviewId userId) : ByAnother db' reviewId userId := by
  obtain ⟨r, hr, hid, hne⟩ := hr
  obtain ⟨r', hr', hid', huser, -⟩ := h.reviews r hr
  exact ⟨r', hr', hid'.trans hid, by rw [huser]; exact hne⟩

theorem Grows.ofOwnCompany {db db' : Db} (h : Grows db db') {reviewId accountId : Uuid}
    (hr : OfOwnCompany db reviewId accountId) : OfOwnCompany db' reviewId accountId := by
  obtain ⟨r, hr, hid, a, ha, haid, hcompany⟩ := hr
  obtain ⟨r', hr', hid', -, hcompany'⟩ := h.reviews r hr
  refine ⟨r', hr', hid'.trans hid, a, ?_, haid, hcompany.trans hcompany'.symm⟩
  rw [h.employerAccounts]
  exact ha

/-- Whatever is later has grown. -/
theorem Grows.of_later {db db' : Db} (h : db.Later db') : Grows db db' := by
  refine ⟨fun r hr => ?_, h.corroborations, h.employerResponses, h.employerAccounts⟩
  obtain ⟨r', hfind, hlater⟩ := h.reviews.find? (fun h => by rw [h.fixed]; rfl)
    ((db.reviews.find?_eq_some r.id r).mpr ⟨hr, rfl⟩)
  refine ⟨r', ((db'.reviews.find?_eq_some _ _).mp hfind).1, ?_⟩
  rw [hlater.fixed]
  exact ⟨rfl, rfl, rfl⟩

/-- Any request that is no post leaves the posts alone. -/
theorem write_posts {p : Platform} {env : Env} {db db' : Db} {req : Request} {out : Response}
    (h : Write p env db req out db') (hreq : req.posts = false) :
    db'.posts = db.posts ∧ db'.corroborations = db.corroborations ∧
      db'.employerResponses = db.employerResponses := by
  cases h with
  | reviewSubmitted => cases hreq
  | reviewCorroborated => cases hreq
  | reviewAnswered => cases hreq
  | @reviewDecided _ itemId decision _ _ _ _ _ _ _ _ _ _ _ =>
    refine ⟨?_, rfl, rfl⟩
    have hpost : (db.reviews.update itemId (Review.setStatus decision.status)).rows.map Review.post =
        db.reviews.rows.map Review.post := by
      rw [Table.rows_update, List.map_map]
      refine List.map_congr_left fun r _ => ?_
      simp only [Function.comp_apply]
      split <;> rfl
    unfold Db.posts
    rw [hpost]
  | _ => exact ⟨rfl, rfl, rfl⟩

/-! ## One step -/

/-- What a session has looked up is so in the database. -/
def Posting.Holds (call : PostCall) (db : Db) (l : Posting) : Prop :=
  match call, l with
  | .corroborateReview reviewId _ _, .ofAnother user => ByAnother db reviewId user.id
  | .corroborateReview reviewId _ _, .newCorroborator user => ByAnother db reviewId user.id
  | .respondToReview _ _ _, .responder account => account ∈ db.employerAccounts.rows
  | .respondToReview reviewId _ _, .ofOwnCompany account => OfOwnCompany db reviewId account.id
  | .respondToReview reviewId _ _, .newResponder account => OfOwnCompany db reviewId account.id
  | _, _ => True

theorem Posting.Holds.grows {call : PostCall} {db db' : Db} {l : Posting} (h : l.Holds call db)
    (hgrows : Grows db db') : l.Holds call db' := by
  cases call with
  | corroborateReview reviewId comment token =>
    cases l with
    | ofAnother user => exact hgrows.byAnother h
    | newCorroborator user => exact hgrows.byAnother h
    | _ => trivial
  | respondToReview reviewId responseText token =>
    cases l with
    | responder account =>
      change account ∈ db'.employerAccounts.rows
      rw [hgrows.employerAccounts]
      exact h
    | ofOwnCompany account => exact hgrows.ofOwnCompany h
    | newResponder account => exact hgrows.ofOwnCompany h
    | _ => trivial
  | submitReview body token => cases l <;> trivial
  | other req hreq => cases l <;> trivial

theorem holds_finished (call : PostCall) (db : Db) : Posting.finished.Holds call db := by
  cases call <;> trivial

/-- What one step of a session does. -/
structure PostStep (call : PostCall) (s : Server) (r : List Posted × Server × Posting) : Prop where
  grows : Grows s.db r.2.1.db
  posts : r.2.1.db.posts.Perm (s.db.posts ++ r.1)
  corroborations : ∀ c ∈ r.2.1.db.corroborations.rows,
    c ∈ s.db.corroborations.rows ∨ ByAnother s.db c.reviewId c.userId
  responses : ∀ a ∈ r.2.1.db.employerResponses.rows,
    a ∈ s.db.employerResponses.rows ∨ OfOwnCompany s.db a.reviewId a.employerAccountId
  holds : r.2.2.Holds call r.2.1.db

section

variable {p : Platform} {call : PostCall} {env : Env} {s : Server} {l : Posting}

theorem postStep_stays (h : l.Holds call s.db) : PostStep call s ([], s, l) :=
  ⟨.refl _, by rw [List.append_nil], fun _ hc => Or.inl hc, fun _ ha => Or.inl ha, h⟩

theorem looksUp_step {r : Except HttpException Posting}
    (h : ∀ l', r = .ok l' → l'.Holds call s.db) : PostStep call s (looksUp s r) := by
  cases r with
  | error e => exact postStep_stays (holds_finished call s.db)
  | ok l' => exact postStep_stays (h l' rfl)

theorem stores_step {r : Except HttpException (Db × Posted)}
    (h : ∀ db posted, r = .ok (db, posted) →
      PostStep call s ([posted], { s with db }, .finished)) : PostStep call s (stores s r) := by
  cases r with
  | error e => exact postStep_stays (holds_finished call s.db)
  | ok a => exact h a.1 a.2 rfl

theorem review_step {reviews : Table Review} {r : Review}
    (h : s.db.reviews.insert r = some reviews) :
    PostStep call s ([r.post], { s with db := { s.db with reviews } }, .finished) := by
  constructor
  · exact { Grows.refl s.db with
      reviews := fun a ha => ⟨a, (Table.mem_insert h a).mpr (Or.inl ha), rfl, rfl, rfl⟩ }
  · unfold Db.posts
    dsimp only
    rw [(Table.insert_eq_some h).1, List.map_append, List.append_assoc, List.append_assoc]
    exact List.Perm.append_left _ List.perm_append_comm
  · exact fun c hc => Or.inl hc
  · exact fun a ha => Or.inl ha
  · exact holds_finished call _

theorem corroboration_step {corroborations : Table Corroboration} {c : Corroboration}
    (h : s.db.corroborations.insert c = some corroborations)
    (hother : ByAnother s.db c.reviewId c.userId) :
    PostStep call s ([c.post], { s with db := { s.db with corroborations } }, .finished) := by
  constructor
  · exact { Grows.refl s.db with corroborations := Table.prefix_insert h }
  · unfold Db.posts
    dsimp only
    rw [(Table.insert_eq_some h).1, List.map_append, List.append_assoc, List.append_assoc,
      List.append_assoc]
    exact List.Perm.append_left _ (List.Perm.append_left _ List.perm_append_comm)
  · intro b hb
    rcases (Table.mem_insert h b).mp hb with hb | rfl
    · exact Or.inl hb
    · exact Or.inr hother
  · exact fun a ha => Or.inl ha
  · exact holds_finished call _

theorem response_step {employerResponses : Table EmployerResponse} {a : EmployerResponse}
    (h : s.db.employerResponses.insert a = some employerResponses)
    (hown : OfOwnCompany s.db a.reviewId a.employerAccountId) :
    PostStep call s ([a.post], { s with db := { s.db with employerResponses } }, .finished) := by
  constructor
  · exact { Grows.refl s.db with employerResponses := Table.prefix_insert h }
  · unfold Db.posts
    dsimp only
    rw [(Table.insert_eq_some h).1, List.map_append, List.append_assoc, List.append_assoc,
      List.map_singleton]
  · exact fun c hc => Or.inl hc
  · intro b hb
    rcases (Table.mem_insert h b).mp hb with hb | rfl
    · exact Or.inl hb
    · exact Or.inr hown
  · exact holds_finished call _

theorem requireReview_mem {reviewId : Uuid} {db : Db} {r : Review}
    (h : requireReview reviewId db = .ok r) : r ∈ db.reviews.rows ∧ r.id = reviewId := by
  unfold requireReview at h
  rw [Table.select_pk] at h
  cases hfind : db.reviews.find? reviewId with
  | none =>
    rw [hfind] at h
    cases h
  | some a =>
    rw [hfind] at h
    cases h
    exact (db.reviews.find?_eq_some _ _).mp hfind

theorem submitStep_spec (body : ReviewCreate) (token : Option String) :
    PostStep (.submitReview body token) s (submitStep p body token env s l) := by
  have hholds : ∀ l' : Posting, l'.Holds (.submitReview body token) s.db := by
    intro l'
    cases l' <;> trivial
  have hstatement : ∀ l : ReviewSubmission, PostStep (.submitReview body token) s
      (submitStep.statement p body token env s l) := by
    intro l
    cases l with
    | newAuthor user =>
      refine stores_step fun db posted h => ?_
      obtain ⟨⟨db', review⟩, h', heq⟩ := map_ok.mp h
      obtain ⟨reviews, hcommit, h1⟩ := bind_ok h'
      cases h1
      cases heq
      exact review_step (commit_ok hcommit).1
    | _ => exact looksUp_step fun l' _ => hholds l'
  cases l with
  | idle => exact hstatement .received
  | submission l => exact hstatement l
  | _ => exact postStep_stays (hholds _)

theorem corroborateStep_spec {reviewId : Uuid} {comment token : Option String}
    (hl : l.Holds (.corroborateReview reviewId comment token) s.db) :
    PostStep (.corroborateReview reviewId comment token) s
      (corroborateStep p reviewId comment token env s l) := by
  cases l with
  | idle =>
    refine looksUp_step fun l' h => ?_
    obtain ⟨user, -, h1⟩ := bind_ok h
    obtain ⟨_, -, h2⟩ := bind_ok h1
    cases h2
    trivial
  | corroborator user =>
    refine looksUp_step fun l' h => ?_
    obtain ⟨review, hreview, h1⟩ := bind_ok h
    obtain ⟨_, hother, h2⟩ := bind_ok h1
    cases h2
    obtain ⟨hmem, hid⟩ := requireReview_mem hreview
    have hne : review.userId ≠ user.id := by simpa using raiseIf_ok hother
    exact ⟨review, hmem, hid, hne⟩
  | ofAnother user =>
    refine looksUp_step fun l' h => ?_
    obtain ⟨_, -, h1⟩ := bind_ok h
    cases h1
    exact hl
  | newCorroborator user =>
    refine stores_step fun db posted h => ?_
    obtain ⟨corroborations, hcommit, h1⟩ := bind_ok h
    cases h1
    exact corroboration_step (commit_ok hcommit).1 hl
  | _ => exact postStep_stays hl

theorem respondStep_spec {reviewId : Uuid} {responseText : String} {token : Option String}
    (hl : l.Holds (.respondToReview reviewId responseText token) s.db) :
    PostStep (.respondToReview reviewId responseText token) s
      (respondStep p reviewId responseText token env s l) := by
  cases l with
  | idle =>
    refine looksUp_step fun l' h => ?_
    obtain ⟨account, hgate, h1⟩ := bind_ok h
    obtain ⟨_, -, h2⟩ := bind_ok h1
    cases h2
    exact ((s.db.employerAccounts.find?_eq_some _ _).mp (getCurrentEmployerAccount_ok hgate).1).1
  | responder account =>
    refine looksUp_step fun l' h => ?_
    obtain ⟨review, hreview, h1⟩ := bind_ok h
    obtain ⟨_, hcompany, h2⟩ := bind_ok h1
    cases h2
    obtain ⟨hmem, hid⟩ := requireReview_mem hreview
    have hsame : review.companyId = account.companyId := by simpa using raiseIf_ok hcompany
    exact ⟨review, hmem, hid, account, hl, rfl, hsame.symm⟩
  | ofOwnCompany account =>
    refine looksUp_step fun l' h => ?_
    obtain ⟨_, -, h1⟩ := bind_ok h
    cases h1
    exact hl
  | newResponder account =>
    refine stores_step fun db posted h => ?_
    obtain ⟨responses, hcommit, h1⟩ := bind_ok h
    cases h1
    exact response_step (commit_ok hcommit).1 hl
  | _ => exact postStep_stays hl

theorem otherStep_spec {req : Request} (hreq : req.posts = false) :
    PostStep (.other req hreq) s (otherStep p req env s l) := by
  cases l with
  | idle =>
    obtain ⟨hposts, hcorroborations, hresponses⟩ :
        (handle p env req s).2.db.posts = s.db.posts ∧
          (handle p env req s).2.db.corroborations = s.db.corroborations ∧
          (handle p env req s).2.db.employerResponses = s.db.employerResponses :=
      handle_rel (R := fun db db' => db'.posts = db.posts ∧
        db'.corroborations = db.corroborations ∧ db'.employerResponses = db.employerResponses)
        ⟨rfl, rfl, rfl⟩ fun hwrite => write_posts hwrite hreq
    constructor
    · exact .of_later (handle_later p env req s)
    · change (handle p env req s).2.db.posts.Perm (s.db.posts ++ [])
      rw [hposts, List.append_nil]
    · intro c hc
      change c ∈ (handle p env req s).2.db.corroborations.rows at hc
      rw [hcorroborations] at hc
      exact Or.inl hc
    · intro a ha
      change a ∈ (handle p env req s).2.db.employerResponses.rows at ha
      rw [hresponses] at ha
      exact Or.inl ha
    · exact holds_finished _ _
  | _ => exact postStep_stays trivial

end

theorem postStep_spec {ι : Type} (p : Platform) (calls : ι → PostCall) (i : ι) (env : Env)
    {s : Server} {l : Posting} (hl : l.Holds (calls i) s.db) :
    PostStep (calls i) s (postStep p calls i env s l) := by
  unfold postStep
  cases hcall : calls i with
  | submitReview body token => exact submitStep_spec body token
  | corroborateReview reviewId comment token => exact corroborateStep_spec (hcall ▸ hl)
  | respondToReview reviewId responseText token => exact respondStep_spec (hcall ▸ hl)
  | other req hreq => exact otherStep_spec hreq

/-! ## Whole runs -/

theorem PostStep.integrity {call : PostCall} {s : Server} {r : List Posted × Server × Posting}
    (h : PostStep call s r) (hs : RelationalIntegrity s.db) : RelationalIntegrity r.2.1.db := by
  refine ⟨nodup_posts _, fun c hc => h.grows.byAnother ?_, fun a ha => h.grows.ofOwnCompany ?_⟩
  · rcases h.corroborations c hc with hold | hnew
    · exact hs.corroborations c hold
    · exact hnew
  · rcases h.responses a ha with hold | hnew
    · exact hs.responses a hold
    · exact hnew

section

variable {ι : Type} [DecidableEq ι] (p : Platform) (calls : ι → PostCall) (s : Server)

/-- What holds after a run in which `os` was answered. -/
structure PostInv (os : List Posted) (c : Conf ι Server Posting) : Prop where
  integrity : RelationalIntegrity c.shared.db
  posts : c.shared.db.posts.Perm (s.db.posts ++ os)
  holds : ∀ i, (c.sess i).Holds (calls i) c.shared.db

theorem postInv_step {os : List Posted} {c : Conf ι Server Posting} (h : PostInv calls s os c)
    (i : ι) (env : Env) :
    PostInv calls s (os ++ (postStep p calls i env c.shared (c.sess i)).1)
      ((interleave (postStep p calls)).step (i, env) c).2 := by
  have hstep := postStep_spec p calls i env (h.holds i)
  constructor
  · exact hstep.integrity h.integrity
  · rw [← List.append_assoc]
    exact hstep.posts.trans (h.posts.append_right _)
  · intro j
    by_cases hj : j = i
    · rw [hj, sess_self]
      exact hstep.holds
    · rw [sess_ne _ _ _ hj]
      exact (h.holds j).grows hstep.grows

theorem postInv_run (sched : List (ι × Env)) (hs : RelationalIntegrity s.db) :
    PostInv calls s (observed (postStep p calls) sched ⟨s, fun _ => .idle⟩)
      ((interleave (postStep p calls)).exec sched ⟨s, fun _ => .idle⟩) := by
  refine observed_inv (I := PostInv calls s) (C := fun _ _ => True) _ ?_
    (fun os c i env _ hinv => postInv_step p calls s hinv i env) sched
    ((interleave (postStep p calls)).along_true sched _)
  refine ⟨hs, by rw [List.append_nil], fun i => ?_⟩
  cases calls i <;> trivial

theorem grows_run (sched : List (ι × Env)) (hs : RelationalIntegrity s.db) {i j : Nat}
    (hij : i ≤ j) :
    Grows ((interleave (postStep p calls)).exec (sched.take i) ⟨s, fun _ => .idle⟩).shared.db
      ((interleave (postStep p calls)).exec (sched.take j) ⟨s, fun _ => .idle⟩).shared.db := by
  refine (interleave (postStep p calls)).exec_take_rel
    (R := fun c c' => Grows c.shared.db c'.shared.db) (fun c => .refl _) (fun h h' => h.trans h')
    (fun n e _ => ?_) hij
  have hinv := postInv_run p calls s (sched.take n) hs
  exact (postStep_spec p calls e.1 e.2 (hinv.holds e.1)).grows

/-- In every interleaving the rules hold in every state, the rows stored are those that
    were answered 201, one a key, and corroborations and responses are only added. -/
theorem relational_integrity (sched : List (ι × Env)) (hs : RelationalIntegrity s.db) :
    let run := interleave (postStep p calls)
    let c : Conf ι Server Posting := ⟨s, fun _ => .idle⟩
    let os := observed (postStep p calls) sched c
    (∀ i, RelationalIntegrity (run.exec (sched.take i) c).shared.db) ∧
      (run.exec sched c).shared.db.posts.Perm (s.db.posts ++ os) ∧
      ((s.db.posts ++ os).map Posted.key).Nodup ∧
      ∀ i j, i ≤ j →
        (run.exec (sched.take i) c).shared.db.corroborations.rows <+:
            (run.exec (sched.take j) c).shared.db.corroborations.rows ∧
          (run.exec (sched.take i) c).shared.db.employerResponses.rows <+:
            (run.exec (sched.take j) c).shared.db.employerResponses.rows := by
  intro run c os
  have hposts := (postInv_run p calls s sched hs).posts
  refine ⟨fun i => (postInv_run p calls s (sched.take i) hs).integrity, hposts, ?_,
    fun i j hij => ?_⟩
  · exact (hposts.map Posted.key).nodup_iff.mp (nodup_posts _)
  · have hgrows := grows_run p calls s sched hs hij
    exact ⟨hgrows.corroborations, hgrows.employerResponses⟩

end

/-- Two submissions of one user for one company, and a corroboration of the first. -/
def racingPosts : Fin 3 → PostCall
  | 0 => .submitReview smallReview (some "alice")
  | 1 => .submitReview smallReview (some "alice")
  | 2 => .corroborateReview 70 none (some "bob")

/-- Both submissions pass every lookup before either commits. -/
def racingSchedule : List (Fin 3 × Env) :=
  List.replicate 4 (0, (drawsAt 1 70).env) ++ List.replicate 4 (1, (drawsAt 1 80).env) ++
    [(0, (drawsAt 1 70).env), (1, (drawsAt 1 80).env)] ++
    List.replicate 4 (2, (drawsAt 2 90).env)

theorem racingPosts_one :
    observed (postStep smallPlatform racingPosts) racingSchedule
        ⟨.start smallDb, fun _ => .idle⟩ =
      [⟨.review 1 5, 70⟩, ⟨.corroboration 70 2, 90⟩] ∧
    RelationalIntegrity ((interleave (postStep smallPlatform racingPosts)).exec
      (racingSchedule.take 14) ⟨.start smallDb, fun _ => .idle⟩).shared.db := by
  have hstart : RelationalIntegrity (Server.start smallDb).db :=
    ⟨by decide, (fun _ hc => by cases hc), (fun _ ha => by cases ha)⟩
  exact ⟨by decide, (relational_integrity smallPlatform racingPosts (.start smallDb) racingSchedule
    hstart).1 14⟩

end LinkedOut
