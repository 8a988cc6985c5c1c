/-
  What every handler stands on: settings (`app/core/config.py`), the platform (keyed
  hash, password hash, token signing, the name filter), what a request draws from
  outside, HTTP errors, the session's commit (`app/core/database.py`), the rate limit
  (`app/core/rate_limit.py`) and the TTL cache (`app/core/cache.py`).

  A handler is a function of the committed database. It raises (`.error`) before it
  has committed anything, or it gives the database it committed together with its
  answer; an answer can itself be an error (a wrong code is committed as an attempt
  and then refused).
-/
import LinkedOut.Models

namespace LinkedOut

/-! ## app/core/config.py -/

structure Settings where
  jwtAccessTokenExpireMinutes : Nat := 60 * 24
  jwtRefreshTokenExpireMinutes : Nat := 60 * 24 * 30
  otpLength : Nat := 6
  otpExpireMinutes : Nat := 5
  otpMaxAttempts : Nat := 3
  otpRateLimitMaxRequests : Nat := 5
  otpRateLimitWindowMinutes : Nat := 60
  emailCodeLength : Nat := 6
  emailCodeExpireMinutes : Nat := 15
  emailRateLimitMaxRequests : Nat := 5
  emailRateLimitWindowMinutes : Nat := 60
  statsMinPublishedReviews : Nat := 5
  statsCacheTtlSeconds : Nat := 60
  reviewRateLimitMaxRequests : Nat := 5
  reviewRateLimitWindowMinutes : Nat := 60
  grievanceRateLimitMaxRequests : Nat := 5
  grievanceRateLimitWindowMinutes : Nat := 60

def seconds (n : Nat) : Time := n * 1000000

def minutes (n : Nat) : Time := seconds (n * 60)

inductive TokenType where
  | access | refresh | employer | admin
  deriving DecidableEq, Repr

/-- The claims of a token: a dictionary, so that any of them may be missing. -/
structure Claims where
  sub : Option Uuid := none
  tier : Option VerificationTier := none
  companyId : Option Uuid := none
  verified : Option Bool := none
  iat : Option Int := none
  exp : Option Int := none
  type : Option TokenType := none
  deriving DecidableEq, Repr

/-- What the handlers use and this repository does not define, or defines apart from the
    routes. `hmac` is HMAC-SHA256 under the pepper, `jwtDecode now` fails on a bad
    signature and on an expired token, `lower` is `str.lower`, `roundedRatio a b` is
    `round(a / b, 2)`. -/
structure Platform where
  settings : Settings
  hmac : String → String
  sha256 : List UInt8 → String
  pbkdf2 : String → List UInt8 → Nat → List UInt8
  jwtEncode : Claims → String
  jwtDecode : Time → String → Except String Claims
  lower : String → String
  roundedRatio : Nat → Nat → Rat
  scanForFlaggedContent : List (Option String) → Option String

/-! ## What one request draws from outside -/

/-- `now i` and `mono i` are the `i`-th readings of `datetime.now` and `time.monotonic`
    while the request is served, `uuid i` the `i`-th `uuid4`, `dbNow` the database's
    `now()`; `random` is what `secrets.randbelow` draws from, `path` the name `mkstemp`
    makes, and `place q` orders the rows that query `q` leaves unordered. -/
structure Draws where
  now : Nat → Time
  mono : Nat → Time := now
  uuid : Nat → Uuid
  dbNow : Time := now 0
  random : Nat := 0
  path : String := ""
  place : Nat → Uuid → Nat := fun _ _ => 0

/-- The draws, and whether the database fails the commit for a reason of its own. -/
structure Env extends Draws where
  commitFails : Bool

/-- The database is up: a commit fails only when the schema refuses a row. -/
def Draws.env (d : Draws) : Env := { d with commitFails := false }

/-! ## HTTP errors -/

structure HttpException where
  status : Nat
  detail : String
  headers : List (String × String) := []
  deriving DecidableEq, Repr

/-- An exception no handler catches. -/
def internalServerError : HttpException := { status := 500, detail := "Internal Server Error" }

/-- `MultipleResultsFound`, kept apart from the other exceptions; the client gets the same
    plain 500. -/
def multipleResultsFound : HttpException :=
  { status := 500, detail := "Multiple rows were found when one or none was required" }

/-- `RequestValidationError`, naming the fields that fail. -/
def unprocessable (fields : List String) : HttpException :=
  { status := 422, detail := ", ".intercalate fields }

/-- `if c: raise e`. -/
def raiseIf (c : Bool) (e : HttpException) : Except HttpException Unit :=
  if c then .error e else .ok ()

/-- The schema's checks, each with the field it is about. -/
def validate (checks : List (String × Bool)) : Except HttpException Unit :=
  raiseIf (checks.any fun c => !c.2) (unprocessable ((checks.filter fun c => !c.2).map Prod.fst))

/-- A `ValueError` of a helper, turned into a 422. -/
def orUnprocessable {α : Type} (r : Except String α) : Except HttpException α :=
  r.mapError fun exc => { status := 422, detail := exc }

/-- `Field(min_length=min, max_length=max)`. -/
def lengthIn (min max : Nat) (s : String) : Bool :=
  decide (min ≤ s.length) && decide (s.length ≤ max)

/-- `scalar_one_or_none`. -/
def scalarOneOrNone {α : Type} : List α → Except HttpException (Option α)
  | [] => .ok none
  | [a] => .ok (some a)
  | _ :: _ :: _ => .error multipleResultsFound

/-- `db.commit()` of a session whose flush gives `flushed`; `onFailure` is what a failed
    commit is turned into. -/
def commit {α : Type} (env : Env) (flushed : Option α) (onFailure : HttpException) :
    Except HttpException α :=
  match flushed with
  | none => .error onFailure
  | some a => if env.commitFails then .error onFailure else .ok a

theorem bind_ok {ε α β : Type} {x : Except ε α} {f : α → Except ε β} {b : β}
    (h : (x >>= f) = .ok b) : ∃ a, x = .ok a ∧ f a = .ok b := by
  cases x with
  | error e => cases h
  | ok a => exact ⟨a, rfl, h⟩

theorem ok_bind {ε α β : Type} (a : α) (f : α → Except ε β) :
    ((Except.ok a : Except ε α) >>= f) = f a := rfl

theorem map_ok {ε α β : Type} {x : Except ε α} {f : α → β} {b : β} :
    x.map f = .ok b ↔ ∃ a, x = .ok a ∧ f a = b := by
  cases x <;> simp [Except.map]

theorem bind_map {ε α β γ : Type} (x : Except ε α) (f : α → Except ε β) (g : β → γ) :
    (x >>= f).map g = x >>= fun a => (f a).map g := by
  cases x <;> rfl

theorem raiseIf_ok {c : Bool} {e : HttpException} {u : Unit} (h : raiseIf c e = .ok u) :
    c = false := by
  unfold raiseIf at h
  split at h
  · cases h
  · rename_i hc; exact Bool.eq_false_iff.mpr hc

theorem orUnprocessable_ok {α : Type} {r : Except String α} {a : α}
    (h : orUnprocessable r = .ok a) : r = .ok a := by
  cases r with
  | error e => cases h
  | ok b => cases h; rfl

theorem validate_ok {checks : List (String × Bool)} {u : Unit} (h : validate checks = .ok u) :
    ∀ c ∈ checks, c.2 = true := by
  have hany := raiseIf_ok h
  intro c hc
  simpa using List.any_eq_false.mp hany c hc

theorem scalarOneOrNone_toList {α : Type} (o : Option α) : scalarOneOrNone o.toList = .ok o := by
  cases o <;> rfl

theorem scalarOneOrNone_some {α : Type} {l : List α} {a : α}
    (h : scalarOneOrNone l = .ok (some a)) : l = [a] := by
  match l with
  | [] => cases h
  | [b] => cases h; rfl
  | _ :: _ :: _ => cases h

theorem scalarOneOrNone_none {α : Type} {l : List α} (h : scalarOneOrNone l = .ok none) :
    l = [] := by
  match l with
  | [] => rfl
  | [b] => cases h
  | _ :: _ :: _ => cases h

theorem commit_ok {α : Type} {env : Env} {flushed : Option α} {e : HttpException} {a : α}
    (h : commit env flushed e = .ok a) : flushed = some a ∧ env.commitFails = false := by
  unfold commit at h
  split at h
  · cases h
  · split at h
    · cases h
    · rename_i hf; cases h; exact ⟨rfl, Bool.eq_false_iff.mpr hf⟩

theorem commit_map {β γ : Type} (env : Env) (φ : β → γ) (flushed : Option β) (e : HttpException) :
    commit env (flushed.map φ) e = (commit env flushed e).map φ := by
  cases flushed with
  | none => rfl
  | some b =>
    simp only [commit, Option.map_some]
    split
    · rfl
    · rfl

@[simp] theorem commit_env_some {α : Type} (d : Draws) (a : α) (e : HttpException) :
    commit d.env (some a) e = .ok a := rfl

/-- The lookup by primary key. -/
theorem scalarOneOrNone_pk {α : Type} [Record α] (t : Table α) (k : Nat) :
    scalarOneOrNone (t.select fun a => pk a == k) = .ok (t.find? k) := by
  rw [t.select_pk, scalarOneOrNone_toList]

/-! ## Paging -/

def maxPageSize : Int := 100

/-- The query parameters of a list endpoint. -/
structure Page where
  limit : Int := 20
  offset : Int := 0
  deriving DecidableEq, Repr

/-- `Query(ge=1, le=_MAX_PAGE_SIZE)` and `Query(ge=0)`. -/
def Page.check (page : Page) : Except HttpException Unit :=
  validate [("query.limit", decide (1 ≤ page.limit) && decide (page.limit ≤ maxPageSize)),
    ("query.offset", decide (0 ≤ page.offset))]

/-- `OFFSET` and `LIMIT`. That PostgreSQL takes offsets below 2^63 only is left out. -/
def Page.slice {α : Type} (page : Page) (rows : List α) : List α :=
  (rows.drop page.offset.toNat).take page.limit.toNat

theorem Page.map_slice {α β : Type} (f : α → β) (page : Page) (rows : List α) :
    (page.slice rows).map f = page.slice (rows.map f) := by
  unfold Page.slice
  rw [List.map_take, List.map_drop]

/-! ## app/core/rate_limit.py -/

/-- `RateLimitExceeded.retry_after_seconds`. -/
structure RateLimitExceeded where
  retryAfterSeconds : Nat
  deriving DecidableEq, Repr

/-- `matching` are the rows of the key; `now` is the one clock reading of the check. -/
def enforceRateLimit {α : Type} (matching : List α) (createdAt : α → Time) (now : Time)
    (windowMinutes maxRequests : Nat) : Except RateLimitExceeded Unit :=
  let windowStart := now - minutes windowMinutes
  let count := (matching.filter fun row => decide (windowStart ≤ createdAt row)).length
  if maxRequests ≤ count then .error ⟨windowMinutes * 60⟩ else .ok ()

theorem enforceRateLimit_map {β : Type} (f : β → β) (createdAt : β → Time)
    (hf : ∀ b, createdAt (f b) = createdAt b) (rows : List β) (now : Time)
    (windowMinutes maxRequests : Nat) :
    enforceRateLimit (rows.map f) createdAt now windowMinutes maxRequests =
      enforceRateLimit rows createdAt now windowMinutes maxRequests := by
  simp only [enforceRateLimit, List.filter_map, List.length_map, Function.comp_def, hf]

/-- The handlers' translation of `RateLimitExceeded` to a 429. -/
def orTooManyRequests (detail : String) (r : Except RateLimitExceeded Unit) :
    Except HttpException Unit :=
  r.mapError fun exc =>
    { status := 429, detail, headers := [("Retry-After", toString exc.retryAfterSeconds)] }

theorem orTooManyRequests_ok {detail : String} {r : Except RateLimitExceeded Unit} {u : Unit}
    (h : orTooManyRequests detail r = .ok u) : r = .ok () := by
  cases r with
  | error e => cases h
  | ok b => rfl

/-! ## app/core/cache.py -/

/-- `_Entry`. -/
structure Entry (α : Type) where
  value : α
  expiresAt : Time

/-- `_entries`, a dictionary; the two caches have the ids of companies as their keys. The
    time to live is handed to `set`. -/
structure TTLCache (κ α : Type) where
  entries : κ → Option (Entry α)

section

variable {α κ : Type}

def TTLCache.empty : TTLCache κ α := ⟨fun _ => none⟩

variable [DecidableEq κ]

/-- `get` at the monotonic time `now`; an expired entry is evicted. -/
def TTLCache.get (cache : TTLCache κ α) (now : Time) (key : κ) : Option α × TTLCache κ α :=
  match cache.entries key with
  | none => (none, cache)
  | some entry =>
    if entry.expiresAt < now then
      (none, ⟨fun k => if k = key then none else cache.entries k⟩)
    else (some entry.value, cache)

def TTLCache.set (ttl : Time) (cache : TTLCache κ α) (now : Time) (key : κ) (value : α) :
    TTLCache κ α :=
  ⟨fun k => if k = key then some ⟨value, now + ttl⟩ else cache.entries k⟩

def TTLCache.invalidate (cache : TTLCache κ α) (key : κ) : TTLCache κ α :=
  ⟨fun k => if k = key then none else cache.entries k⟩

end

def TTLCache.clear {α κ : Type} (_ : TTLCache κ α) : TTLCache κ α := .empty

end LinkedOut
