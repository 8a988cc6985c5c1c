/-
  The four limits of `app/core/rate_limit.py`: OTP requests by phone, email requests and
  reviews by user, grievances by contact.

  The check and the row it lets in read the clock one after the other (`checkedAt`,
  `stampedAt`), so the row is never stamped before the check. `write_stamps`: a request
  stores at most one row for a key, after its check has passed. `rate_limits`: on a clock
  that does not go back no window has more rows than allowed, the OTPs that one phone is
  sent in a window are compared with so many codes at most, and who is refused is let in
  again after `Retry-After`.
-/
import Mathlib.Algebra.Order.Group.Int
import LinkedOut.SlidingWindow
import LinkedOut.Codes.Compared

namespace LinkedOut

/-- What one of the four limits counts by. -/
inductive LimitKey where
  | otp (phoneHash : String)
  | email (userId : Uuid)
  | review (userId : Uuid)
  | grievance (contact : String)
  deriving DecidableEq

namespace LimitKey

/-- The `created_at` of the rows of the key. -/
def stamps (db : Db) : LimitKey → List Time
  | otp phoneHash => (db.otpCodes.select fun c => c.phoneHash == phoneHash).map OTPCode.createdAt
  | email userId =>
    (db.emailVerificationCodes.select fun c => c.userId == userId).map
      EmailVerificationCode.createdAt
  | review userId => (db.reviews.select fun r => r.userId == userId).map Review.createdAt
  | grievance contact =>
    (db.grievanceComplaints.select fun c => c.complainantContact == contact).map
      GrievanceComplaint.createdAt

def windowMinutes (p : Platform) : LimitKey → Nat
  | otp _ => p.settings.otpRateLimitWindowMinutes
  | email _ => p.settings.emailRateLimitWindowMinutes
  | review _ => p.settings.reviewRateLimitWindowMinutes
  | grievance _ => p.settings.grievanceRateLimitWindowMinutes

def maxRequests (p : Platform) : LimitKey → Nat
  | otp _ => p.settings.otpRateLimitMaxRequests
  | email _ => p.settings.emailRateLimitMaxRequests
  | review _ => p.settings.reviewRateLimitMaxRequests
  | grievance _ => p.settings.grievanceRateLimitMaxRequests

def window (p : Platform) (k : LimitKey) : Time := minutes (k.windowMinutes p)

/-- The clock reading of the check. -/
def checkedAt : LimitKey → Nat
  | otp _ => 0 | email _ => 1 | review _ => 1 | grievance _ => 0

/-- The clock reading of `created_at`. -/
def stampedAt : LimitKey → Nat
  | otp _ => 2 | email _ => 3 | review _ => 2 | grievance _ => 1

/-- The call of `enforce_rate_limit`. -/
def enforce (p : Platform) (db : Db) (now : Time) : LimitKey → Except RateLimitExceeded Unit
  | otp phoneHash =>
    enforceRateLimit (db.otpCodes.select fun c => c.phoneHash == phoneHash) OTPCode.createdAt now
      p.settings.otpRateLimitWindowMinutes p.settings.otpRateLimitMaxRequests
  | email userId =>
    enforceRateLimit (db.emailVerificationCodes.select fun c => c.userId == userId)
      EmailVerificationCode.createdAt now p.settings.emailRateLimitWindowMinutes
      p.settings.emailRateLimitMaxRequests
  | review userId =>
    enforceRateLimit (db.reviews.select fun r => r.userId == userId) Review.createdAt now
      p.settings.reviewRateLimitWindowMinutes p.settings.reviewRateLimitMaxRequests
  | grievance contact =>
    enforceRateLimit (db.grievanceComplaints.select fun c => c.complainantContact == contact)
      GrievanceComplaint.createdAt now p.settings.grievanceRateLimitWindowMinutes
      p.settings.grievanceRateLimitMaxRequests

end LimitKey

theorem enforceRateLimit_eq {α : Type} (matching : List α) (createdAt : α → Time) (now : Time)
    (windowMinutes maxRequests : Nat) :
    enforceRateLimit matching createdAt now windowMinutes maxRequests =
      if maxRequests ≤ recent (now - minutes windowMinutes) (matching.map createdAt) then
        .error ⟨windowMinutes * 60⟩
      else .ok () := by
  unfold enforceRateLimit recent
  rw [List.countP_map, List.countP_eq_length_filter]
  rfl

theorem LimitKey.enforce_eq (p : Platform) (db : Db) (now : Time) (k : LimitKey) :
    k.enforce p db now =
      if k.maxRequests p ≤ recent (now - k.window p) (k.stamps db) then
        .error ⟨k.windowMinutes p * 60⟩
      else .ok () := by
  cases k <;> exact enforceRateLimit_eq _ _ _ _ _

theorem LimitKey.enforce_ok_iff (p : Platform) (db : Db) (now : Time) (k : LimitKey) :
    k.enforce p db now = .ok () ↔ recent (now - k.window p) (k.stamps db) < k.maxRequests p := by
  rw [k.enforce_eq]
  split
  · rename_i hfull
    exact ⟨(fun h => by cases h), fun h => absurd hfull (not_le.mpr h)⟩
  · rename_i hfree
    exact ⟨fun _ => not_le.mp hfree, fun _ => rfl⟩

/-! ## What one request stores -/

/-- The stamps of a key when a row is added whose own key has passed the check. -/
theorem stamps_insert {α κ : Type} [Record α] [DecidableEq κ] {p : Platform} {db : Db} {now : Time}
    {t u : Table α} {a : α} (h : t.insert a = some u) (column : α → κ) (createdAt : α → Time)
    (limitKey : κ → LimitKey) (hlimit : (limitKey (column a)).enforce p db now = .ok ()) (key : κ) :
    (u.select fun b => column b == key).map createdAt =
        (t.select fun b => column b == key).map createdAt ∨
      ((limitKey key).enforce p db now = .ok () ∧
        (u.select fun b => column b == key).map createdAt =
          (t.select fun b => column b == key).map createdAt ++ [createdAt a]) := by
  rw [Table.select_insert h]
  by_cases hkey : column a = key
  · subst hkey
    exact Or.inr ⟨hlimit, by simp⟩
  · exact Or.inl (by simp [hkey])

/-- A request stores no row for the key, or one, and then the check has passed. -/
theorem write_stamps {p : Platform} {env : Env} {db db' : Db} {req : Request} {out : Response}
    (h : Write p env db req out db') (k : LimitKey) :
    k.stamps db' = k.stamps db ∨
      (k.enforce p db (env.now k.checkedAt) = .ok () ∧
        k.stamps db' = k.stamps db ++ [env.now k.stampedAt]) := by
  cases h with
  | otpIssued _ hlimit hinsert =>
    cases k with
    | otp phoneHash =>
      exact stamps_insert hinsert OTPCode.phoneHash OTPCode.createdAt .otp hlimit phoneHash
    | _ => exact Or.inl rfl
  | emailIssued _ _ _ hlimit hinsert =>
    cases k with
    | email userId =>
      exact stamps_insert hinsert EmailVerificationCode.userId EmailVerificationCode.createdAt
        .email hlimit userId
    | _ => exact Or.inl rfl
  | reviewSubmitted _ _ _ hlimit hinsert =>
    cases k with
    | review userId =>
      exact stamps_insert hinsert Review.userId Review.createdAt .review hlimit userId
    | _ => exact Or.inl rfl
  | grievanceSubmitted hlimit hinsert =>
    cases k with
    | grievance contact =>
      exact stamps_insert hinsert GrievanceComplaint.complainantContact
        GrievanceComplaint.createdAt .grievance hlimit contact
    | _ => exact Or.inl rfl
  | otpWrong | otpAccepted =>
    cases k with
    | otp => exact Or.inl (Table.map_select_update _ _ _ (fun _ => rfl) fun _ => rfl)
    | _ => exact Or.inl rfl
  | emailWrong | emailAccepted =>
    cases k with
    | email => exact Or.inl (Table.map_select_update _ _ _ (fun _ => rfl) fun _ => rfl)
    | _ => exact Or.inl rfl
  | reviewDecided =>
    cases k with
    | review => exact Or.inl (Table.map_select_update _ _ _ (fun _ => rfl) fun _ => rfl)
    | _ => exact Or.inl rfl
  | _ => exact Or.inl (by cases k <;> rfl)

theorem handle_stamps (p : Platform) (env : Env) (req : Request) (s : Server) (k : LimitKey) :
    k.stamps (handle p env req s).2.db = k.stamps s.db ∨
      (k.enforce p s.db (env.now k.checkedAt) = .ok () ∧
        k.stamps (handle p env req s).2.db = k.stamps s.db ++ [env.now k.stampedAt]) :=
  handle_rel (R := fun db db' => k.stamps db' = k.stamps db ∨
      (k.enforce p db (env.now k.checkedAt) = .ok () ∧
        k.stamps db' = k.stamps db ++ [env.now k.stampedAt]))
    (Or.inl rfl) fun hwrite => write_stamps hwrite k

/-! ## The clock -/

/-- The readings of one request do not go back. -/
def Draws.Forward (d : Draws) : Prop := ∀ i j, i ≤ j → d.now i ≤ d.now j

/-- The clock does not go back, within a request and from one request to the next. -/
structure ClockForward (es : List (Request × Draws)) : Prop where
  within : ∀ e ∈ es, e.2.Forward
  across : NonDecreasing es

theorem LimitKey.checked_le_stamped {d : Draws} (h : d.Forward) (k : LimitKey) :
    d.now k.checkedAt ≤ d.now k.stampedAt := by
  cases k <;> exact h _ _ (by simp [checkedAt, stampedAt])

/-- A stamp was there at the start, or a request has read it from the clock. -/
theorem stamps_known (p : Platform) (es : List (Request × Draws)) (s : Server) (k : LimitKey) :
    ∀ t ∈ k.stamps ((Api p).exec es s).db, t ∈ k.stamps s.db ∨ ∃ e ∈ es, ∃ i, t = e.2.now i := by
  induction es using List.reverseRecOn with
  | nil => exact fun t ht => Or.inl ht
  | append_singleton es e ih =>
    have hold : ∀ t ∈ k.stamps ((Api p).exec es s).db,
        t ∈ k.stamps s.db ∨ ∃ f ∈ es ++ [e], ∃ i, t = f.2.now i := by
      intro t ht
      rcases ih t ht with hstart | ⟨f, hf, i, hi⟩
      · exact Or.inl hstart
      · exact Or.inr ⟨f, List.mem_append_left _ hf, i, hi⟩
    intro t ht
    rw [(Api p).exec_snoc] at ht
    rcases handle_stamps p e.2.env e.1 ((Api p).exec es s) k with hsame | ⟨-, hone⟩
    · exact hold t (hsame ▸ ht)
    · rw [show k.stamps ((Api p).step e ((Api p).exec es s)).2.db = _ from hone] at ht
      rcases List.mem_append.mp ht with ht | ht
      · exact hold t ht
      · exact Or.inr ⟨e, List.mem_append_right _ (List.mem_singleton_self e), _,
          List.mem_singleton.mp ht⟩

/-- When a request reads the clock, every row is in the past. -/
theorem stamps_past {p : Platform} {es : List (Request × Draws)} {s : Server}
    (hclock : ClockForward es) {k : LimitKey}
    (hpast : ∀ t ∈ k.stamps s.db, ∀ e ∈ es, ∀ i, t ≤ e.2.now i) {n : Nat} {e : Request × Draws}
    (he : es[n]? = some e) (i : Nat) :
    ∀ t ∈ k.stamps ((Api p).exec (es.take n) s).db, t ≤ e.2.now i := by
  intro t ht
  rcases stamps_known p (es.take n) s k t ht with hstart | ⟨f, hf, j, rfl⟩
  · exact hpast t hstart e (List.mem_of_getElem? he) i
  · have hsplit := hclock.across
    rw [← List.take_append_drop n es] at hsplit
    have hdrop : e ∈ es.drop n := by
      refine List.mem_of_getElem? (i := 0) ?_
      rw [List.getElem?_drop, Nat.add_zero]
      exact he
    exact (List.pairwise_append.mp hsplit).2.2 f hf e hdrop j i

/-! ## Whole runs -/

/-- What is let in stays spaced. -/
theorem spaced_run (p : Platform) (es : List (Request × Draws)) (s : Server) (k : LimitKey)
    (hwithin : ∀ e ∈ es, e.2.Forward)
    (hspaced : Spaced (k.window p) (k.maxRequests p) (k.stamps s.db)) :
    Spaced (k.window p) (k.maxRequests p) (k.stamps ((Api p).exec es s).db) := by
  refine (Api p).exec_inv (I := fun t => Spaced (k.window p) (k.maxRequests p) (k.stamps t.db))
    (C := fun _ e => e.2.Forward) (fun t e hforward ht => ?_) es s hspaced ?_
  · rcases handle_stamps p e.2.env e.1 t k with hsame | ⟨hadmits, hone⟩
    · change Spaced _ _ (k.stamps (handle p e.2.env e.1 t).2.db)
      rw [hsame]
      exact ht
    · change Spaced _ _ (k.stamps (handle p e.2.env e.1 t).2.db)
      rw [hone]
      exact ht.snoc (k.checked_le_stamped hforward) ((k.enforce_ok_iff _ _ _).mp hadmits)
  · exact ((Api p).along_iff _ es s).mpr fun v hv => hwithin v.event ((Api p).event_mem hv)

/-- Counting what meets one of several conditions, each met so often at most. -/
theorem countP_any_le {α β : Type} (f : β → α → Bool) (cs : List β) (l : List α) {bound : Nat}
    (h : ∀ c ∈ cs, l.countP (f c) ≤ bound) :
    (l.countP fun a => cs.any fun c => f c a) ≤ cs.length * bound := by
  induction cs with
  | nil => simp
  | cons c cs ih =>
    have hrest := ih fun d hd => h d (List.mem_cons_of_mem _ hd)
    have hfirst := h c List.mem_cons_self
    have hor : (l.countP fun a => (c :: cs).any fun c => f c a) ≤
        l.countP (f c) + l.countP fun a => cs.any fun c => f c a := by
      induction l with
      | nil => simp
      | cons a l ihl => grind
    rw [List.length_cons, Nat.succ_mul]
    omega

/-- The OTPs that the phone was sent from `a` to `b`. -/
def otpsSent (db : Db) (phoneHash : String) (a b : Time) : List OTPCode :=
  (db.otpCodes.select fun c => c.phoneHash == phoneHash).filter fun c =>
    decide (a ≤ c.createdAt) && decide (c.createdAt ≤ b)

theorem length_otpsSent (db : Db) (phoneHash : String) (a b : Time) :
    (otpsSent db phoneHash a b).length = inInterval a b ((LimitKey.otp phoneHash).stamps db) := by
  unfold otpsSent inInterval LimitKey.stamps
  rw [List.countP_map, List.countP_eq_length_filter]
  rfl

/-- On a clock that does not go back, from rows that are spaced and in the past (none, say):
    no closed window has more rows of a key than allowed; with fresh user ids the OTPs that
    one phone is sent in a window are compared with so many codes at most; and whoever is
    refused, with no further row of the key stored, is let in later than `Retry-After`. -/
theorem rate_limits (p : Platform) (es : List (Request × Draws)) (s : Server)
    (hmax : ∀ k : LimitKey, 1 ≤ k.maxRequests p) (hclock : ClockForward es)
    (hspaced : ∀ k : LimitKey, Spaced (k.window p) (k.maxRequests p) (k.stamps s.db))
    (hpast : ∀ k : LimitKey, ∀ t ∈ k.stamps s.db, ∀ e ∈ es, ∀ i, t ≤ e.2.now i) :
    (∀ (k : LimitKey) (n : Nat) (a : Time),
      inInterval a (a + k.window p) (k.stamps ((Api p).exec (es.take n) s).db) ≤ k.maxRequests p) ∧
    ((Api p).Along FreshUserId es s → ∀ (phoneHash : String) (a : Time),
      (((Api p).trace es s).countP fun v =>
        (otpsSent ((Api p).exec es s).db phoneHash a
          (a + (LimitKey.otp phoneHash).window p)).any fun c => (otpFlow p).compares c.id v) ≤
        (LimitKey.otp phoneHash).maxRequests p * p.settings.otpMaxAttempts) ∧
    ∀ (k : LimitKey) (n m : Nat) (e : Request × Draws) (exc : RateLimitExceeded) (c' : Time),
      es[n]? = some e →
      k.enforce p ((Api p).exec (es.take n) s).db (e.2.now k.checkedAt) = .error exc →
      k.stamps ((Api p).exec (es.take m) s).db = k.stamps ((Api p).exec (es.take n) s).db →
      e.2.now k.checkedAt + seconds exc.retryAfterSeconds < c' →
      k.enforce p ((Api p).exec (es.take m) s).db c' = .ok () := by
  refine ⟨fun k n a => ?_, fun hfresh phoneHash a => ?_, ?_⟩
  · have hwithin : ∀ e ∈ es.take n, e.2.Forward :=
      fun e he => hclock.within e (List.mem_of_mem_take he)
    exact spaced_run p (es.take n) s k hwithin (hspaced k) a
  · have hsettles : (Api p).Along (otpFlow p).Settles es s :=
      ((Api p).along_iff _ es s).mpr fun v hv =>
        otp_settles (((Api p).along_iff _ es s).mp hfresh v hv)
    have hsent := spaced_run p es s (.otp phoneHash) hclock.within (hspaced _) a
    rw [← length_otpsSent] at hsent
    refine (countP_any_le (fun c : OTPCode => (otpFlow p).compares c.id) _ _
      fun c _ => (otpFlow p).compared_le es s hsettles c.id).trans ?_
    exact Nat.mul_le_mul_right _ hsent
  · intro k n m e exc c' he hrefused hsame hlater
    have hretry : seconds exc.retryAfterSeconds = k.window p := by
      rw [k.enforce_eq] at hrefused
      split at hrefused
      · cases hrefused
        rfl
      · cases hrefused
    rw [hretry] at hlater
    have hbefore : ∀ t ∈ k.stamps ((Api p).exec (es.take n) s).db, t ≤ e.2.now k.checkedAt :=
      stamps_past hclock (hpast k) he k.checkedAt
    rw [k.enforce_ok_iff, hsame]
    exact recent_lt_of_past (hmax k) hbefore hlater

/-- Six OTP requests for one phone, one a microsecond. -/
def otpBurst : List (Request × Draws) :=
  (List.range 6).map fun (i : Nat) => (.requestOtp "+15551234567", drawsAt (i : Int) (30 + i))

theorem otpBurst_forward : ClockForward otpBurst := by
  constructor
  · intro e he
    obtain ⟨i, -, rfl⟩ := List.mem_map.mp he
    exact fun _ _ _ => le_rfl
  · refine List.pairwise_map.mpr (List.pairwise_lt_range.imp fun {i j} hij _ _ => ?_)
    exact Int.ofNat_le.mpr hij.le

/-- The sixth is refused, and with no further row an hour later it would be let in. -/
theorem otpBurst_limited :
    inInterval 0 (minutes 60) ((LimitKey.otp "+15551234567").stamps
        ((Api smallPlatform).exec (otpBurst.take 6) (.start smallDb)).db) ≤ 5 ∧
      (LimitKey.otp "+15551234567").enforce smallPlatform
        ((Api smallPlatform).exec (otpBurst.take 5) (.start smallDb)).db 5 = .error ⟨3600⟩ ∧
      (LimitKey.otp "+15551234567").enforce smallPlatform
        ((Api smallPlatform).exec (otpBurst.take 6) (.start smallDb)).db (seconds 3600 + 6) =
          .ok () := by
  have hempty : ∀ k : LimitKey, k.stamps (Server.start smallDb).db = [] := by
    intro k
    cases k <;> rfl
  have hmax : ∀ k : LimitKey, 1 ≤ k.maxRequests smallPlatform := by
    have hfive : 1 ≤ 5 := by decide
    intro k
    cases k <;> exact hfive
  have hlimits := rate_limits smallPlatform otpBurst (.start smallDb) hmax otpBurst_forward
    (by intro k; rw [hempty k]; exact .nil _ _)
    (by intro k t ht; rw [hempty k] at ht; cases ht)
  have hrefused : (LimitKey.otp "+15551234567").enforce smallPlatform
      ((Api smallPlatform).exec (otpBurst.take 5) (.start smallDb)).db 5 = .error ⟨3600⟩ := by
    decide
  refine ⟨hlimits.1 (.otp "+15551234567") 6 0, hrefused, ?_⟩
  exact hlimits.2.2 (.otp "+15551234567") 5 6 _ _ _ rfl hrefused (by decide) (by decide)

end LinkedOut
