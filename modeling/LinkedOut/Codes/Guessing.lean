/-
  Guessing an OTP without having received it.

  Only the comparison of a submitted code looks at the hash of a stored one: every other
  request, and a verification that is refused before the comparison, is served alike
  whatever the hash is (`step_guarded`). So a player who picks every request, and all that
  it draws, from the responses so far finds the code only by submitting it, and each code
  submitted costs an attempt. `otp_guesses_le`: of the codes that `randbelow` could have
  drawn, at most `otp_max_attempts` are found, however long the play.

  Of the keyed hash it is used that it tells the codes of the configured length apart.
-/
import Mathlib.Data.Fintype.Basic
import Mathlib.Data.Set.Function
import LinkedOut.Codes.Compared
import LinkedOut.Gates.PasswordHashes
import LinkedOut.Guessing
import LinkedOut.Paired

namespace LinkedOut

/-! ## The codes that can be drawn -/

theorem digitValue_lt {c : Char} (hc : c.isDigit = true) : c.toNat - '0'.toNat < 10 := by
  obtain ⟨-, hhigh⟩ := digit_range hc
  have hzero : '0'.toNat = 48 := rfl
  omega

theorem ofDigitChars_snoc (digits : List Char) (c : Char) :
    Nat.ofDigitChars 10 (digits ++ [c]) 0 =
      10 * Nat.ofDigitChars 10 digits 0 + (c.toNat - '0'.toNat) := by
  rw [Nat.ofDigitChars_append, Nat.ofDigitChars_cons, Nat.ofDigitChars_nil]

theorem ofDigitChars_lt {digits : List Char} (h : ∀ c ∈ digits, c.isDigit = true) :
    Nat.ofDigitChars 10 digits 0 < 10 ^ digits.length := by
  induction digits using List.reverseRecOn with
  | nil => simp
  | append_singleton digits c ih =>
    have hbefore := ih fun d hd => h d (List.mem_append_left _ hd)
    have hlast := digitValue_lt (h c (by simp))
    rw [ofDigitChars_snoc, List.length_append, List.length_singleton, Nat.pow_succ]
    omega

/-- Numerals of one length are told apart by their values. -/
theorem ofDigitChars_inj {l m : List Char} (hl : ∀ c ∈ l, c.isDigit = true)
    (hm : ∀ c ∈ m, c.isDigit = true) (hlength : l.length = m.length)
    (hvalue : Nat.ofDigitChars 10 l 0 = Nat.ofDigitChars 10 m 0) : l = m := by
  induction l using List.reverseRecOn generalizing m with
  | nil => exact (List.length_eq_zero_iff.mp hlength.symm).symm
  | append_singleton l c ih =>
    obtain rfl | ⟨m, d, rfl⟩ := List.eq_nil_or_concat' m
    · simp at hlength
    · have hc := hl c (by simp)
      have hd := hm d (by simp)
      have hcValue := digitValue_lt hc
      have hdValue := digitValue_lt hd
      rw [ofDigitChars_snoc, ofDigitChars_snoc] at hvalue
      have hbefore : l = m := by
        refine ih (fun x hx => hl x (List.mem_append_left _ hx))
          (fun x hx => hm x (List.mem_append_left _ hx)) ?_ (by omega)
        simpa using hlength
      have hlast : c.toNat = d.toNat := by
        have hcRange := digit_range hc
        have hdRange := digit_range hd
        have hzero : '0'.toNat = 48 := rfl
        omega
      rw [hbefore, Char.toNat_inj.mp hlast]

theorem generateNumericCode_value (length random : Nat) :
    Nat.ofDigitChars 10 (generateNumericCode length random).toList 0 = random % 10 ^ length := by
  unfold generateNumericCode zfill
  rw [String.toList_ofList, Nat.ofDigitChars_append, Nat.ofDigitChars_replicate_zero, Nat.mul_zero,
    Nat.toString_eq_repr, Nat.toList_repr, Nat.ofDigitChars_ten_toDigits]

theorem generateNumericCode_inj {length : Nat} {r r' : Fin (10 ^ length)}
    (h : generateNumericCode length r = generateNumericCode length r') : r = r' := by
  have hvalue := generateNumericCode_value length r
  rw [h, generateNumericCode_value, Nat.mod_eq_of_lt r.isLt, Nat.mod_eq_of_lt r'.isLt] at hvalue
  exact Fin.ext hvalue.symm

/-- A generated code has the configured length, leading zeros included. -/
theorem generateNumericCode_digits {length : Nat} (hlength : 0 < length) (random : Nat) :
    (generateNumericCode length random).toList.length = length ∧
      ∀ c ∈ (generateNumericCode length random).toList, c.isDigit = true := by
  have hfits : (Nat.toDigits 10 (random % 10 ^ length)).length ≤ length :=
    (Nat.length_toDigits_le_iff (by decide) hlength).mpr
      (Nat.mod_lt _ (Nat.pow_pos (by decide)))
  unfold generateNumericCode zfill
  rw [String.toList_ofList, Nat.toString_eq_repr, Nat.toList_repr]
  constructor
  · rw [List.length_append, List.length_replicate]
    omega
  · intro c hc
    rcases List.mem_append.mp hc with hzero | hdigit
    · rw [List.eq_of_mem_replicate hzero]
      rfl
    · exact Nat.isDigit_of_mem_toDigits (by decide) (by decide) hdigit

/-- What `randbelow` draws and the codes of the configured length correspond one to one, so a
    uniform draw makes every code equally likely. -/
theorem numericCodes_bijOn {length : Nat} (hlength : 0 < length) :
    Set.BijOn (generateNumericCode length) {random | random < 10 ^ length}
      {code | code.toList.length = length ∧ ∀ c ∈ code.toList, c.isDigit = true} := by
  refine ⟨fun random _ => generateNumericCode_digits hlength random, ?_, ?_⟩
  · intro r hr r' hr' h
    have hcodes : generateNumericCode length (⟨r, hr⟩ : Fin (10 ^ length)) =
        generateNumericCode length (⟨r', hr'⟩ : Fin (10 ^ length)) := h
    exact Fin.mk.inj (generateNumericCode_inj hcodes)
  · rintro code ⟨hcode, hdigits⟩
    have hvalue := ofDigitChars_lt hdigits
    rw [hcode] at hvalue
    obtain ⟨hlength', hdigits'⟩ :=
      generateNumericCode_digits hlength (Nat.ofDigitChars 10 code.toList 0)
    refine ⟨_, hvalue, String.toList_injective ?_⟩
    refine ofDigitChars_inj hdigits' hdigits (hlength'.trans hcode.symm) ?_
    rw [generateNumericCode_value, Nat.mod_eq_of_lt hvalue]

theorem sixDigitCodes_bijOn :
    Set.BijOn (generateNumericCode 6) {random | random < 10 ^ 6}
      {code | code.toList.length = 6 ∧ ∀ c ∈ code.toList, c.isDigit = true} :=
  numericCodes_bijOn (by decide)

/-! ## Requests that leave the OTPs alone -/

/-- The database with another table of OTPs. -/
def Db.withOtpCodes (db : Db) (otpCodes : Table OTPCode) : Db := { db with otpCodes }

def Server.withOtpCodes (s : Server) (otpCodes : Table OTPCode) : Server :=
  { s with db := s.db.withOtpCodes otpCodes }

/-- The result of a handler, with another table of OTPs. -/
def withOtpCodes {α : Type} (codes : Table OTPCode) (r : Db × α) : Db × α :=
  (r.1.withOtpCodes codes, r.2)

section

variable {p : Platform} {env : Env} {db : Db} {s : Server} {codes : Table OTPCode}

theorem answerCommit_withOtpCodes {α : Type} {x y : Except HttpException (Db × α)}
    (payload : α → Payload) (h : y = x.map (withOtpCodes codes)) :
    answerCommit (s.withOtpCodes codes) y payload =
      ((answerCommit s x payload).1, (answerCommit s x payload).2.withOtpCodes codes) := by
  subst h
  cases x <;> rfl

theorem answerVerify_withOtpCodes
    {x y : Except HttpException (Db × Except HttpException VerifyOut)}
    (h : y = x.map (withOtpCodes codes)) :
    answerVerify (s.withOtpCodes codes) y =
      ((answerVerify s x).1, (answerVerify s x).2.withOtpCodes codes) := by
  subst h
  cases x <;> rfl

theorem answerFiles_withOtpCodes {α : Type} {x y : List String × Except HttpException (Db × α)}
    (payload : α → Payload) (h : y = (x.1, x.2.map (withOtpCodes codes))) :
    answerFiles (s.withOtpCodes codes) y payload =
      ((answerFiles s x payload).1, (answerFiles s x payload).2.withOtpCodes codes) := by
  subst h
  exact answerCommit_withOtpCodes (s := { s with files := x.1 }) payload rfl

/-- A handler's last step: the commit, and the answer. -/
theorem commit_withOtpCodes {α : Type} (flushed : Option Db) {flushed' : Option Db}
    {e : HttpException} (h : flushed' = flushed.map fun db => db.withOtpCodes codes)
    (out : Db → α) (hout : ∀ db : Db, out (db.withOtpCodes codes) = out db) :
    (commit env flushed' e >>= fun db' => .ok (db', out db')) =
      (commit env flushed e >>= fun db' => .ok (db', out db')).map (withOtpCodes codes) := by
  subst h
  rw [commit_map]
  cases commit env flushed e with
  | error e => rfl
  | ok db' => exact congrArg (fun a => Except.ok (db'.withOtpCodes codes, a)) (hout db')

theorem flushDecision_withOtpCodes (adminId : Uuid) (itemType : ModeratedItemType) (itemId : Uuid)
    (item : ModeratedItem) (decision : Decision) :
    flushDecision env adminId itemType itemId item decision (db.withOtpCodes codes) =
      (flushDecision env adminId itemType itemId item decision db).map
        fun db => db.withOtpCodes codes := by
  unfold flushDecision
  show (db.moderationAuditLog.insert _ >>= _) =
    Option.map _ (db.moderationAuditLog.insert _ >>= _)
  cases db.moderationAuditLog.insert
      (newAuditEntry env 1 adminId itemType itemId decision.action decision.reason) with
  | none => rfl
  | some log => cases item <;> rfl

theorem flushDocument_withOtpCodes (adminId itemId : Uuid) (status : ModerationStatus)
    (action : ModerationAction) (reason : Option String) :
    flushDocument env adminId itemId status action reason (db.withOtpCodes codes) =
      (flushDocument env adminId itemId status action reason db).map
        fun db => db.withOtpCodes codes := by
  unfold flushDocument
  show (db.moderationAuditLog.insert _ >>= _) =
    Option.map _ (db.moderationAuditLog.insert _ >>= _)
  cases db.moderationAuditLog.insert
      (newAuditEntry env 2 adminId .document itemId action reason) with
  | none => rfl
  | some log => rfl

theorem flushApproval_withOtpCodes (adminId itemId : Uuid) (user : User) :
    flushApproval env adminId itemId user (db.withOtpCodes codes) =
      (flushApproval env adminId itemId user db).map fun db => db.withOtpCodes codes := by
  unfold flushApproval
  rw [flushDocument_withOtpCodes]
  cases flushDocument env adminId itemId .approved .approve none db with
  | none => rfl
  | some db' =>
    simp only [Option.map_some, bind, Option.bind, pure]
    split
    · rfl
    · rfl

theorem decideModerationItem_withOtpCodes (itemType : ModeratedItemType) (itemId : Uuid)
    (decision : Decision) (check : Except HttpException Unit) (token : Option String) :
    decideModerationItem p env itemType itemId decision check token (db.withOtpCodes codes) =
      (decideModerationItem p env itemType itemId decision check token db).map
        (withOtpCodes codes) := by
  simp only [decideModerationItem, bind_map]
  refine congrArg _ (funext fun admin => congrArg _ (funext fun _ => congrArg _ (funext
    fun item => ?_)))
  rw [flushDecision_withOtpCodes]
  exact (commit_withOtpCodes _ rfl
    (fun _ => (⟨itemType, itemId, decision.status, decision.action⟩ : ModerationActionOut))
    fun _ => rfl).trans (bind_map _ _ _)

theorem verifyEmail_withOtpCodes (email code : String) (token : Option String) :
    verifyEmail p env email code token (db.withOtpCodes codes) =
      (verifyEmail p env email code token db).map (withOtpCodes codes) := by
  simp only [verifyEmail, bind_map]
  refine congrArg _ (funext fun user => congrArg _ (funext fun emailHash => congrArg _ (funext
    fun verdict => ?_)))
  cases verdict with
  | wrong row =>
    exact commit_withOtpCodes (some (countEmailAttempt row db)) rfl
      (fun _ => (.error (incorrectCode p.settings.otpMaxAttempts (row.attempts + 1)) :
        Except HttpException VerifyOut)) fun _ => rfl
  | right row =>
    exact commit_withOtpCodes (some (consumeEmail env user row db)) rfl
      (verified p env 3 user.id) fun _ => rfl

theorem uploadDocument_withOtpCodes (docType : DocumentType) (content : List UInt8)
    (token : Option String) (files : List String) :
    uploadDocument p env docType content token (db.withOtpCodes codes) files =
      ((uploadDocument p env docType content token db files).1,
        (uploadDocument p env docType content token db files).2.map (withOtpCodes codes)) := by
  have hsame : acceptDocument p env content token (db.withOtpCodes codes) =
      acceptDocument p env content token db := rfl
  unfold uploadDocument
  rw [hsame]
  cases acceptDocument p env content token db with
  | error e => rfl
  | ok user =>
    cases mkstemp env files with
    | error e => rfl
    | ok files' =>
      refine congrArg (Prod.mk files') ?_
      simp only [bind_map]
      rfl

theorem approveDocument_withOtpCodes (itemId : Uuid) (token : Option String)
    (files : List String) :
    approveDocument p env itemId token (db.withOtpCodes codes) files =
      ((approveDocument p env itemId token db files).1,
        (approveDocument p env itemId token db files).2.map (withOtpCodes codes)) := by
  have hsame : loadForApproval p env itemId token (db.withOtpCodes codes) =
      loadForApproval p env itemId token db := rfl
  unfold approveDocument
  rw [hsame]
  cases loadForApproval p env itemId token db with
  | error e => rfl
  | ok loaded =>
    exact congrArg (Prod.mk _)
      (commit_withOtpCodes _ (flushApproval_withOtpCodes _ _ _) (fun _ => _) fun _ => rfl)

theorem rejectDocument_withOtpCodes (itemId : Uuid) (reason : String) (token : Option String)
    (files : List String) :
    rejectDocument p env itemId reason token (db.withOtpCodes codes) files =
      ((rejectDocument p env itemId reason token db files).1,
        (rejectDocument p env itemId reason token db files).2.map (withOtpCodes codes)) := by
  have hsame : loadForRejection p env itemId reason token (db.withOtpCodes codes) =
      loadForRejection p env itemId reason token db := rfl
  unfold rejectDocument
  rw [hsame]
  cases loadForRejection p env itemId reason token db with
  | error e => rfl
  | ok loaded =>
    exact congrArg (Prod.mk _)
      (commit_withOtpCodes _ (flushDocument_withOtpCodes _ _ _ _ _) (fun _ => _) fun _ => rfl)

/-- A request that is neither of the two OTP endpoints does not look at the OTPs. Most
    handlers only ask before their one commit, and then everything passes through `bind_map`. -/
theorem handle_withOtpCodes (req : Request) (hissue : ∀ phone, req ≠ .requestOtp phone)
    (hverify : ∀ phone code, req ≠ .verifyOtp phone code) :
    handle p env req (s.withOtpCodes codes) =
      ((handle p env req s).1, (handle p env req s).2.withOtpCodes codes) := by
  cases req with
  | requestOtp phone => exact absurd rfl (hissue phone)
  | verifyOtp phone code => exact absurd rfl (hverify phone code)
  | verifyEmail email code token =>
    exact answerVerify_withOtpCodes (verifyEmail_withOtpCodes email code token)
  | requestEmailVerification | submitReview | corroborateReview | respondToReview
  | submitLayoffEvent | createTakedownLogEntry | submitGrievance =>
    refine answerCommit_withOtpCodes _ ?_
    simp only [requestEmailVerification, submitReview, corroborateReview, respondToReview,
      submitLayoffEvent, createTakedownLogEntry, submitGrievance, bind_map]
    rfl
  | approveModerationItem | rejectModerationItem =>
    exact answerCommit_withOtpCodes _ (decideModerationItem_withOtpCodes _ _ _ _ _)
  | uploadDocument docType content token =>
    exact answerFiles_withOtpCodes _ (uploadDocument_withOtpCodes docType content token s.files)
  | approveDocument itemId token =>
    exact answerFiles_withOtpCodes _ (approveDocument_withOtpCodes itemId token s.files)
  | rejectDocument itemId reason token =>
    exact answerFiles_withOtpCodes _ (rejectDocument_withOtpCodes itemId reason token s.files)
  | _ => rfl

end

/-! ## An OTP whose hash is hidden -/

def OTPCode.setOtpHash (otpHash : String) : Patch OTPCode where
  apply c := { c with otpHash }
  pk_apply _ := rfl
  clash_apply _ _ := rfl

/-- The database, but for the hash `h` of the OTP with the id `k`. -/
def Db.hiding (k : Uuid) (h : String) (db : Db) : Db :=
  db.withOtpCodes (db.otpCodes.update k (OTPCode.setOtpHash h))

def Server.hiding (k : Uuid) (h : String) (s : Server) : Server := { s with db := s.db.hiding k h }

/-- The row, if it is the hidden one. -/
def OTPCode.hiding (k : Uuid) (h : String) (c : OTPCode) : OTPCode :=
  if pk c = k then (OTPCode.setOtpHash h).apply c else c

theorem OTPCode.hiding_of_ne {k : Uuid} {c : OTPCode} (hk : c.id ≠ k) (h : String) :
    c.hiding k h = c := if_neg hk

theorem OTPCode.hiding_of_eq {k : Uuid} {c : OTPCode} (hk : c.id = k) (h : String) :
    c.hiding k h = { c with otpHash := h } := if_pos hk

/-- The columns that are looked at before the comparison. -/
theorem OTPCode.hiding_expiresAt (k : Uuid) (h : String) (c : OTPCode) :
    (c.hiding k h).expiresAt = c.expiresAt := by
  unfold OTPCode.hiding
  split <;> rfl

theorem OTPCode.hiding_attempts (k : Uuid) (h : String) (c : OTPCode) :
    (c.hiding k h).attempts = c.attempts := by
  unfold OTPCode.hiding
  split <;> rfl

theorem OTPCode.hiding_createdAt (k : Uuid) (h : String) (c : OTPCode) :
    (c.hiding k h).createdAt = c.createdAt := by
  unfold OTPCode.hiding
  split <;> rfl

theorem OTPCode.hiding_id (k : Uuid) (h : String) (c : OTPCode) : (c.hiding k h).id = c.id := by
  unfold OTPCode.hiding
  split <;> rfl

section

variable {p : Platform} {env : Env} {d : Draws} {db : Db} {s : Server} {k : Uuid} {c : OTPCode}

/-- The same row is looked up. -/
theorem pending_hiding (place : Uuid → Nat) (codes : Table OTPCode) (phoneHash h : String) :
    pending place (codes.update k (OTPCode.setOtpHash h)) phoneHash =
      (pending place codes phoneHash).map (OTPCode.hiding k h) := by
  have hselect := codes.select_update k (OTPCode.setOtpHash h)
    (p := fun c => c.phoneHash == phoneHash && c.consumedAt.isNone) fun _ => rfl
  have horder := map_orderDesc (fun c : OTPCode => place c.id) OTPCode.createdAt
    (OTPCode.hiding k h) (fun c => place c.id) OTPCode.createdAt
    (fun c => congrArg place (c.hiding_id k h)) (fun c => c.hiding_createdAt k h)
    (codes.select fun c => c.phoneHash == phoneHash && c.consumedAt.isNone)
  exact (congrArg List.head? ((congrArg _ hselect).trans horder.symm)).trans List.head?_map

/-- A request for an OTP does not look at the hashes of those that are stored. -/
theorem requestOtp_hiding (phone h : String) (hc : db.otpCodes.find? k = some c) :
    Paired (fun a b => b = (a.1.hiding k h, a.2)) (requestOtp p env phone db)
      (requestOtp p env phone (db.hiding k h)) := by
  refine .bind_eq rfl fun phoneHash => ?_
  refine .bind_eq ?_ fun _ => ?_
  · have hselect := db.otpCodes.select_update k (OTPCode.setOtpHash h)
      (p := fun c => c.phoneHash == phoneHash) fun _ => rfl
    have hlimit := enforceRateLimit_map (OTPCode.hiding k h) OTPCode.createdAt
      (fun c => c.hiding_createdAt k h) (db.otpCodes.select fun c => c.phoneHash == phoneHash)
      (env.now 0) p.settings.otpRateLimitWindowMinutes p.settings.otpRateLimitMaxRequests
    exact congrArg _ ((congrArg (enforceRateLimit · _ _ _ _) hselect).trans hlimit)
  · have hinsert := db.otpCodes.insert_update hc (OTPCode.setOtpHash h) (newOtpCode p env phoneHash)
    refine .bind_map (fun t : Table OTPCode => t.update k (OTPCode.setOtpHash h)) ?_
      fun otpCodes => .ok rfl
    rw [← commit_map]
    exact congrArg (commit env · internalServerError) hinsert

theorem answerCommit_hiding {α : Type} {h : String} {x y : Except HttpException (Db × α)}
    (payload : α → Payload) (hxy : Paired (fun a b => b = (a.1.hiding k h, a.2)) x y) :
    answerCommit (s.hiding k h) y payload =
      ((answerCommit s x payload).1, (answerCommit s x payload).2.hiding k h) := by
  cases hxy with
  | error e => rfl
  | ok h => subst h; rfl

/-- What the comparison with a code finds once the row `k` hides `h`. -/
def Verdict.hiding (k : Uuid) (h submittedHash : String) (v : Verdict OTPCode) : Verdict OTPCode :=
  if v.row.id = k then
    if submittedHash = h then .right (v.row.hiding k h) else .wrong (v.row.hiding k h)
  else v

/-- The checks before the comparison come out alike. -/
theorem judge_hiding {maxAttempts : Nat} {now : Time} {missing expired submittedHash h : String}
    (row : OTPCode) :
    judge maxAttempts now missing expired submittedHash (some (row.hiding k h)) =
      (judge maxAttempts now missing expired submittedHash (some row)).map
        (Verdict.hiding k h submittedHash) := by
  have hexpires : OneTimeCode.expiresAt (row.hiding k h) = OneTimeCode.expiresAt row :=
    row.hiding_expiresAt k h
  have hattempts : OneTimeCode.attempts (row.hiding k h) = OneTimeCode.attempts row :=
    row.hiding_attempts k h
  have hid : ∀ v : Verdict OTPCode, v.row = row →
      v.hiding k h submittedHash = if row.id = k then
        if submittedHash = h then .right (row.hiding k h) else .wrong (row.hiding k h) else v := by
    rintro v rfl
    rfl
  unfold judge
  simp only [hexpires, hattempts]
  split
  · rfl
  split
  · rfl
  by_cases hk : row.id = k
  · have hhash : OneTimeCode.codeHash (row.hiding k h) = h := by
      rw [OTPCode.hiding_of_eq hk]
      rfl
    rw [hhash]
    by_cases hsub : submittedHash = h
    · rw [if_neg (not_not.mpr hsub)]
      split <;> rw [Except.map, hid _ rfl, if_pos hk, if_pos hsub]
    · rw [if_pos hsub]
      split <;> rw [Except.map, hid _ rfl, if_pos hk, if_neg hsub]
  · rw [OTPCode.hiding_of_ne hk]
    split <;> rw [Except.map, hid _ rfl, if_neg hk]

theorem judgeOtp_hiding (phoneHash code h : String) :
    judgeOtp p env phoneHash code (db.hiding k h) =
      (judgeOtp p env phoneHash code db).map (Verdict.hiding k h (hashCode p code)) := by
  have hpending : pending (env.place 0) (db.hiding k h).otpCodes phoneHash =
      (pending (env.place 0) db.otpCodes phoneHash).map (OTPCode.hiding k h) :=
    pending_hiding _ _ _ _
  unfold judgeOtp
  rw [hpending]
  cases pending (env.place 0) db.otpCodes phoneHash with
  | none => rfl
  | some row => exact judge_hiding row

theorem countOtpAttempt_hiding (row : OTPCode) (h : String) :
    countOtpAttempt row (db.hiding k h) = (countOtpAttempt row db).hiding k h := by
  have hcomm := db.otpCodes.update_comm row.id k (OTPCode.setOtpHash h)
    (OTPCode.setAttempts (row.attempts + 1)) fun _ => rfl
  exact congrArg (fun t => { db with otpCodes := t }) hcomm

theorem consumeOtp_hiding (phoneHash h : String) (row : OTPCode) (user : Option User) :
    consumeOtp env phoneHash row user (db.hiding k h) =
      (consumeOtp env phoneHash row user db).map (Prod.map (Db.hiding k h) id) := by
  have hcomm := db.otpCodes.update_comm row.id k (OTPCode.setOtpHash h)
    (OTPCode.setConsumed (env.now 1)) fun _ => rfl
  have hcodes : (db.hiding k h).otpCodes.update row.id (OTPCode.setConsumed (env.now 1)) =
      (db.otpCodes.update row.id (OTPCode.setConsumed (env.now 1))).update k
        (OTPCode.setOtpHash h) := hcomm
  unfold consumeOtp
  rw [hcodes]
  cases user with
  | none =>
    show (db.users.insert _ >>= _) = Option.map _ (db.users.insert _ >>= _)
    cases db.users.insert ⟨env.uuid 0, phoneHash, none, .phone⟩ with
    | none => rfl
    | some users => rfl
  | some user =>
    dsimp only
    split
    · rfl
    · rfl

/-- A verification that does not compare with the hidden row does not look at it. -/
theorem verifyOtp_hiding (phone code h : String)
    (hjudge : ∀ phoneHash, hashPhone p phone = .ok phoneHash →
      judgeOtp p env phoneHash code (db.hiding k h) = judgeOtp p env phoneHash code db) :
    Paired (fun a b => b = (a.1.hiding k h, a.2)) (verifyOtp p env phone code db)
      (verifyOtp p env phone code (db.hiding k h)) := by
  unfold verifyOtp
  cases hphone : hashPhone p phone with
  | error e => exact .error _
  | ok phoneHash =>
    change Paired _ (judgeOtp p env phoneHash code db >>= _)
      (judgeOtp p env phoneHash code (db.hiding k h) >>= _)
    refine .bind_eq (hjudge phoneHash hphone) fun verdict => ?_
    cases verdict with
    | wrong row =>
      refine .bind_map (Db.hiding k h) ?_ fun _ => .ok rfl
      rw [← commit_map, Option.map_some, countOtpAttempt_hiding]
    | right row =>
      refine .bind_eq rfl fun user => ?_
      refine .bind_map (Prod.map (Db.hiding k h) id) ?_ fun _ => .ok rfl
      rw [← commit_map, consumeOtp_hiding]

theorem answerVerify_hiding {h : String}
    {x y : Except HttpException (Db × Except HttpException VerifyOut)}
    (hxy : Paired (fun a b => b = (a.1.hiding k h, a.2)) x y) :
    answerVerify (s.hiding k h) y =
      ((answerVerify s x).1, (answerVerify s x).2.hiding k h) := by
  cases hxy with
  | error e => rfl
  | ok h => subst h; rfl

/-- A code that does not have the hidden hash is wrong, whatever the hash is. -/
theorem verifyOtp_guess {phone code phoneHash h : String} {v : Verdict OTPCode}
    (hphone : hashPhone p phone = .ok phoneHash)
    (hjudge : judgeOtp p d.env phoneHash code db = .ok v) (hk : v.row.id = k)
    (hne : hashCode p code ≠ h) :
    verifyOtp p d.env phone code (db.hiding k h) =
      .ok ((countOtpAttempt v.row db).hiding k h,
        .error (incorrectCode p.settings.otpMaxAttempts (v.row.attempts + 1))) := by
  have hwrong : judgeOtp p d.env phoneHash code (db.hiding k h) =
      .ok (.wrong (v.row.hiding k h)) := by
    rw [judgeOtp_hiding, hjudge, Except.map, Verdict.hiding, if_pos hk, if_neg hne]
  have hcount : countOtpAttempt (v.row.hiding k h) (db.hiding k h) =
      (countOtpAttempt v.row db).hiding k h := by
    rw [← countOtpAttempt_hiding, countOtpAttempt, countOtpAttempt, OTPCode.hiding_id,
      OTPCode.hiding_attempts]
  unfold verifyOtp
  rw [hphone]
  simp only [orUnprocessable, Except.mapError, ok_bind, hwrong, commit_env_some, hcount,
    OTPCode.hiding_attempts]
  rfl

end

/-! ## The game -/

/-- The code is right, and it is the one of the row with the id `k`. -/
def Verdict.finds {γ : Type} [Record γ] (k : Uuid) : Verdict γ → Bool
  | .wrong _ => false
  | .right row => pk row == k

/-- The step finds the code of the row with the id `k`. -/
def Flow.finds {p : Platform} {γ κ : Type} [Record γ] [OneTimeCode γ κ] [DecidableEq κ]
    (F : Flow p γ κ) (k : Uuid) (v : ApiStep) : Bool :=
  (F.submitted v.event v.before.db).any fun sub =>
    (sub.verdict p.settings.otpMaxAttempts (F.codes v.before.db)).any (Verdict.finds k)

/-- The attempts that the row with the id `k` still has. -/
def otpTriesLeft (p : Platform) (k : Uuid) (s : Server) : Nat :=
  p.settings.otpMaxAttempts - ((s.db.otpCodes.find? k).map OTPCode.attempts).getD 0

def OtpStored (k : Uuid) (s : Server) : Prop := ∃ c, s.db.otpCodes.find? k = some c

/-- The state in which the row with the id `k` hides the code drawn from `random`. -/
def Server.hidingCode (p : Platform) (k : Uuid) (random : Fin (10 ^ p.settings.otpLength))
    (s : Server) : Server :=
  s.hiding k (hashCode p (generateNumericCode p.settings.otpLength random))

section

variable {p : Platform} {d : Draws} {s : Server} {k : Uuid}

theorem otpTriesLeft_of_find? {c : OTPCode} (hc : s.db.otpCodes.find? k = some c) :
    otpTriesLeft p k s = p.settings.otpMaxAttempts - c.attempts := by
  unfold otpTriesLeft
  rw [hc]
  rfl

/-- A request that is no verification finds nothing. -/
theorem finds_of_none {e : Request × Draws} (h : otpSubmitted p e = none) :
    (otpFlow p).finds k ((Api p).serve e s) = false := by
  have hsubmitted : (otpFlow p).submitted e s.db = none := h
  show ((otpFlow p).submitted e s.db).any _ = false
  rw [hsubmitted]
  rfl

/-- What a verification finds is what its checks say. -/
theorem finds_verifyOtp {phone code : String} :
    (otpFlow p).finds k ((Api p).serve (.verifyOtp phone code, d) s) =
      ((hashPhone p phone).toOption.any fun phoneHash =>
        (judgeOtp p d.env phoneHash code s.db).toOption.any (Verdict.finds k)) := by
  show (otpSubmitted p (.verifyOtp phone code, d)).any _ = _
  simp only [otpSubmitted]
  cases hashPhone p phone with
  | error e => rfl
  | ok phoneHash => exact congrArg (Option.any _) (judgeOtp_verdict p d phoneHash code s.db).symm

theorem Verdict.finds_hiding {v : Verdict OTPCode} (hk : v.row.id ≠ k) (h submittedHash : String) :
    v.hiding k h submittedHash = v ∧ v.finds k = false := by
  refine ⟨if_neg hk, ?_⟩
  cases v with
  | wrong row => rfl
  | right row => exact beq_false_of_ne hk

/-- What a step does to the attempts of a stored row. -/
theorem FlowStep.attempts_le {γ κ : Type} [Record γ] [OneTimeCode γ κ] [DecidableEq κ]
    {maxAttempts : Nat} {codes codes' : Table γ} {ok : Bool} {asked : Option γ}
    {submitted : Option (Submission κ)}
    (h : FlowStep maxAttempts codes codes' ok asked submitted) {c : γ}
    (hc : codes.find? k = some c) :
    ∃ c', codes'.find? k = some c' ∧ OneTimeCode.attempts c ≤ OneTimeCode.attempts c' := by
  have hupdate : ∀ (row : γ) (f : Patch γ), codes.find? (pk row) = some row →
      OneTimeCode.attempts row ≤ OneTimeCode.attempts (f.apply row) →
      ∃ c', (codes.update (pk row) f).find? k = some c' ∧
        OneTimeCode.attempts c ≤ OneTimeCode.attempts c' := by
    intro row f hrow hf
    by_cases hk : k = pk row
    · subst hk
      rw [hrow] at hc
      cases hc
      exact ⟨_, codes.find?_update_self f hrow, hf⟩
    · exact ⟨c, by rw [codes.find?_update_ne f hk, hc], le_refl _⟩
  cases h with
  | issued hinsert => exact ⟨c, Table.find?_of_insert hinsert hc, le_refl _⟩
  | @wrong sub row hverdict =>
    refine hupdate row _ (pending_find? (Submission.verdict_some hverdict).1) ?_
    rw [OneTimeCode.attempts_setAttempts]
    omega
  | @accepted sub row _ hverdict =>
    refine hupdate row _ (pending_find? (Submission.verdict_some hverdict).1) ?_
    rw [OneTimeCode.attempts_setConsumed]
  | _ => exact ⟨c, hc, le_refl _⟩

/-- No step brings attempts back. -/
theorem otpTriesLeft_step (e : Request × Draws) (h : OtpStored k s) :
    OtpStored k ((Api p).step e s).2 ∧
      otpTriesLeft p k ((Api p).step e s).2 ≤ otpTriesLeft p k s := by
  obtain ⟨c, hc⟩ := h
  obtain ⟨c', hc', hle⟩ := ((otpFlow p).step e s).attempts_le hc
  refine ⟨⟨c', hc'⟩, ?_⟩
  have hattempts : c.attempts ≤ c'.attempts := hle
  rw [otpTriesLeft_of_find? hc, otpTriesLeft_of_find? hc']
  omega

/-- A verification that looks at another row, or at none, treats all codes alike. -/
theorem verifyOtp_blind {phone code h : String}
    (hother : ∀ phoneHash v, hashPhone p phone = .ok phoneHash →
      judgeOtp p d.env phoneHash code s.db = .ok v → v.row.id ≠ k) :
    (Api p).step (.verifyOtp phone code, d) (s.hiding k h) =
        (((Api p).step (.verifyOtp phone code, d) s).1,
          ((Api p).step (.verifyOtp phone code, d) s).2.hiding k h) ∧
      (otpFlow p).finds k ((Api p).serve (.verifyOtp phone code, d) (s.hiding k h)) = false := by
  have hjudge : ∀ phoneHash, hashPhone p phone = .ok phoneHash →
      judgeOtp p d.env phoneHash code (s.db.hiding k h) = judgeOtp p d.env phoneHash code s.db ∧
        (judgeOtp p d.env phoneHash code s.db).toOption.any (Verdict.finds k) = false := by
    intro phoneHash hphone
    rw [judgeOtp_hiding]
    cases hv : judgeOtp p d.env phoneHash code s.db with
    | error e => exact ⟨rfl, rfl⟩
    | ok v =>
      obtain ⟨hsame, hno⟩ :=
        Verdict.finds_hiding (hother phoneHash v hphone hv) h (hashCode p code)
      exact ⟨congrArg Except.ok hsame, hno⟩
  constructor
  · exact answerVerify_hiding (verifyOtp_hiding phone code h fun phoneHash hphone =>
      (hjudge phoneHash hphone).1)
  · rw [finds_verifyOtp]
    cases hphone : hashPhone p phone with
    | error e => rfl
    | ok phoneHash =>
      obtain ⟨hsame, hno⟩ := hjudge phoneHash hphone
      show (judgeOtp p d.env phoneHash code (s.db.hiding k h)).toOption.any _ = false
      rw [hsame, hno]

/-- A verification that is compared with the row costs it an attempt; that row's code apart, it
    treats all codes alike. -/
theorem verifyOtp_compared {phone code phoneHash h : String} {v : Verdict OTPCode}
    (hphone : hashPhone p phone = .ok phoneHash)
    (hjudge : judgeOtp p d.env phoneHash code s.db = .ok v) (hk : v.row.id = k)
    (hne : hashCode p code ≠ h) :
    (Api p).step (.verifyOtp phone code, d) (s.hiding k h) =
        (.error (incorrectCode p.settings.otpMaxAttempts (v.row.attempts + 1)),
          { s with db := countOtpAttempt v.row s.db }.hiding k h) ∧
      (otpFlow p).finds k ((Api p).serve (.verifyOtp phone code, d) (s.hiding k h)) = false := by
  constructor
  · show answerVerify _ (verifyOtp p d.env phone code (s.db.hiding k h)) = _
    rw [verifyOtp_guess hphone hjudge hk hne]
    rfl
  · rw [finds_verifyOtp, hphone]
    show (judgeOtp p d.env phoneHash code (s.db.hiding k h)).toOption.any _ = false
    rw [judgeOtp_hiding, hjudge, Except.map, Verdict.hiding, if_pos hk, if_neg hne]
    rfl

theorem countOtpAttempt_triesLeft {v : Verdict OTPCode} (hv : s.db.otpCodes.find? k = some v.row)
    (hfree : v.row.attempts < p.settings.otpMaxAttempts) :
    OtpStored k { s with db := countOtpAttempt v.row s.db } ∧
      otpTriesLeft p k { s with db := countOtpAttempt v.row s.db } < otpTriesLeft p k s := by
  have hk : v.row.id = k := ((s.db.otpCodes.find?_eq_some k v.row).mp hv).2
  have hafter : (countOtpAttempt v.row s.db).otpCodes.find? k =
      some ((OTPCode.setAttempts (v.row.attempts + 1)).apply v.row) := by
    subst hk
    exact s.db.otpCodes.find?_update_self _ hv
  refine ⟨⟨_, hafter⟩, ?_⟩
  have hspent := otpTriesLeft_of_find? (p := p) (s := { s with db := countOtpAttempt v.row s.db })
    hafter
  rw [otpTriesLeft_of_find? hv, hspent]
  show p.settings.otpMaxAttempts - (v.row.attempts + 1) < _
  omega

/-- The other requests treat all codes alike. -/
theorem step_hiding {req : Request} (hissue : ∀ phone, req ≠ .requestOtp phone)
    (hverify : ∀ phone code, req ≠ .verifyOtp phone code) (h : String) :
    (Api p).step (req, d) (s.hiding k h) =
      (((Api p).step (req, d) s).1, ((Api p).step (req, d) s).2.hiding k h) := by
  have hframe : handle p d.env req (s.withOtpCodes (s.db.otpCodes.update k (OTPCode.setOtpHash h))) =
      _ := handle_withOtpCodes req hissue hverify
  have hkept : (handle p d.env req s).2.db.otpCodes = s.db.otpCodes :=
    handle_otpCodes hissue hverify
  refine Eq.trans hframe (congrArg (Prod.mk _) ?_)
  show (handle p d.env req s).2.withOtpCodes _ =
    (handle p d.env req s).2.withOtpCodes
      ((handle p d.env req s).2.db.otpCodes.update k (OTPCode.setOtpHash h))
  rw [hkept]

theorem otpSubmitted_none {req : Request} (hverify : ∀ phone code, req ≠ .verifyOtp phone code) :
    otpSubmitted p (req, d) = none := by
  cases req with
  | verifyOtp phone code => exact absurd rfl (hverify phone code)
  | _ => rfl

/-- One step treats all codes of the row alike, or it costs an attempt and treats all but one
    alike. -/
theorem step_guarded
    (htold : ∀ r r' : Fin (10 ^ p.settings.otpLength),
      hashCode p (generateNumericCode p.settings.otpLength r) =
        hashCode p (generateNumericCode p.settings.otpLength r') →
      generateNumericCode p.settings.otpLength r = generateNumericCode p.settings.otpLength r') :
    (Api p).Guarded (Server.hidingCode p k) ((otpFlow p).finds k) (otpTriesLeft p k)
      (OtpStored k) := by
  rintro ⟨req, d⟩ s hstored
  -- what a step that treats all codes alike has to show
  have halike : (∀ h, (Api p).step (req, d) (s.hiding k h) =
        (((Api p).step (req, d) s).1, ((Api p).step (req, d) s).2.hiding k h) ∧
      (otpFlow p).finds k ((Api p).serve (req, d) (s.hiding k h)) = false) →
      (Api p).GuardedStep (Server.hidingCode p k) ((otpFlow p).finds k) (otpTriesLeft p k)
        (OtpStored k) (req, d) s := by
    intro h
    obtain ⟨hstored', hle⟩ := otpTriesLeft_step (p := p) (req, d) hstored
    exact .alike _ _ hstored' hle fun r => h _
  by_cases hissue : ∃ phone, req = .requestOtp phone
  · obtain ⟨phone, rfl⟩ := hissue
    obtain ⟨c, hc⟩ := hstored
    exact halike fun h => ⟨answerCommit_hiding _ (requestOtp_hiding phone h hc), finds_of_none rfl⟩
  by_cases hverify : ∃ phone code, req = .verifyOtp phone code
  · obtain ⟨phone, code, rfl⟩ := hverify
    by_cases hcompared : ∃ phoneHash v, hashPhone p phone = .ok phoneHash ∧
        judgeOtp p d.env phoneHash code s.db = .ok v ∧ v.row.id = k
    · obtain ⟨phoneHash, v, hphone, hjudge, hk⟩ := hcompared
      obtain ⟨hpending, -, hfree, -⟩ := judge_ok hjudge
      have hrow : s.db.otpCodes.find? k = some v.row := hk ▸ pending_find? hpending
      obtain ⟨hstored', hless⟩ := countOtpAttempt_triesLeft hrow hfree
      -- the one guess is the code with the submitted hash
      refine .guessed _ _ hstored' hless (fun r => hashCode p code =
        hashCode p (generateNumericCode p.settings.otpLength r)) (fun r r' hr hr' => ?_)
        fun r hr => verifyOtp_compared hphone hjudge hk hr
      exact generateNumericCode_inj (htold r r' (hr.symm.trans hr'))
    · refine halike fun h => verifyOtp_blind fun phoneHash v hphone hjudge hk => ?_
      exact hcompared ⟨phoneHash, v, hphone, hjudge, hk⟩
  · have hissue' : ∀ phone, req ≠ .requestOtp phone := fun phone h => hissue ⟨phone, h⟩
    have hverify' : ∀ phone code, req ≠ .verifyOtp phone code :=
      fun phone code h => hverify ⟨phone, code, h⟩
    exact halike fun h => ⟨step_hiding hissue' hverify' h, finds_of_none (otpSubmitted_none hverify')⟩

/-- A request for an OTP issues one alike whatever code it draws. -/
theorem requestOtp_drawn {phone : String} {out : OTPRequestOut} {db db' : Db}
    (h : requestOtp p d.env phone db = .ok (db', out)) (random : Nat) :
    OtpStored (d.uuid 0) { s with db := db' } ∧
      requestOtp p { d with random }.env phone db =
        .ok (db'.hiding (d.uuid 0)
          (hashCode p (generateNumericCode p.settings.otpLength random)), out) := by
  obtain ⟨phoneHash, hphone, h1⟩ := bind_ok h
  obtain ⟨_, hlimit, h2⟩ := bind_ok h1
  obtain ⟨otpCodes, hcommit, h3⟩ := bind_ok h2
  cases h3
  have hinsert := (commit_ok hcommit).1
  have hdrawn := Table.insert_patched hinsert
    (OTPCode.setOtpHash (hashCode p (generateNumericCode p.settings.otpLength random))) rfl
  refine ⟨⟨_, (Table.find?_insert hinsert _).trans (if_pos rfl)⟩, ?_⟩
  · have hcommit' : commit { d with random }.env
        (db.otpCodes.insert (newOtpCode p { d with random }.env phoneHash)) internalServerError =
          .ok (otpCodes.update (d.uuid 0) (OTPCode.setOtpHash
            (hashCode p (generateNumericCode p.settings.otpLength random)))) :=
      (congrArg (commit _ · _) hdrawn).trans (commit_env_some _ _ _)
    unfold requestOtp
    rw [hphone, ok_bind]
    refine Eq.trans (congrArg (· >>= _) hlimit) ?_
    rw [ok_bind, hcommit']
    rfl

/-- The state after the request, the drawn code apart. -/
theorem step_requestOtp_drawn {phone : String} {out : OTPRequestOut} {db' : Db}
    (h : requestOtp p d.env phone s.db = .ok (db', out)) (random : Nat) :
    ((Api p).step (.requestOtp phone, { d with random }) s).2 =
      { s with db := db' }.hiding (d.uuid 0)
        (hashCode p (generateNumericCode p.settings.otpLength random)) := by
  have hdrawn := (requestOtp_drawn (s := s) h random).2
  simp only [Api, handle, hdrawn, answerCommit, Server.hiding]

end

/-- Of the codes that could have been drawn for an OTP, no more are found than there are
    attempts, whoever asks for whatever from then on. -/
theorem otp_guesses_le (p : Platform)
    (htold : ∀ r r' : Fin (10 ^ p.settings.otpLength),
      hashCode p (generateNumericCode p.settings.otpLength r) =
        hashCode p (generateNumericCode p.settings.otpLength r') →
      generateNumericCode p.settings.otpLength r = generateNumericCode p.settings.otpLength r')
    (phone : String) (d : Draws) (s : Server)
    (hissued : ((Api p).step (.requestOtp phone, d) s).1.isOk = true)
    (strategy : List Response → Request × Draws) (n : Nat) :
    (Finset.univ.filter fun random : Fin (10 ^ p.settings.otpLength) =>
      ((Api p).play strategy n []
          ((Api p).step (.requestOtp phone, { d with random := random }) s).2).any
        ((otpFlow p).finds (d.uuid 0)) = true).card ≤ p.settings.otpMaxAttempts := by
  cases hreq : requestOtp p d.env phone s.db with
  | error e =>
    have hrefused : ((Api p).step (.requestOtp phone, d) s).1 = .error e := by
      show (answerCommit s (requestOtp p d.env phone s.db) Payload.otpRequest).1 = _
      rw [hreq]
      rfl
    rw [hrefused] at hissued
    cases hissued
  | ok r =>
    obtain ⟨db', out⟩ := r
    have hafter : ∀ random : Fin (10 ^ p.settings.otpLength),
        ((Api p).step (.requestOtp phone, { d with random := random }) s).2 =
          { s with db := db' }.hidingCode p (d.uuid 0) random :=
      fun random => step_requestOtp_drawn hreq random
    have hguarded := step_guarded (k := d.uuid 0) htold
    have hstored : OtpStored (d.uuid 0) { s with db := db' } := (requestOtp_drawn hreq 0).1
    have hfound := Machine.found_card_le hguarded strategy n [] hstored Finset.univ
    simp only [hafter]
    exact hfound.trans (Nat.sub_le _ _)

/-- A player who tries the codes from `000000` upwards. -/
def countingPlayer (os : List Response) : Request × Draws :=
  (.verifyOtp "+15551234567" (generateNumericCode 6 os.length), drawsAt 1 100)

theorem countingPlayer_guesses_le :
    (Finset.univ.filter fun random : Fin (10 ^ smallPlatform.settings.otpLength) =>
      ((Api smallPlatform).play countingPlayer 1000 []
          ((Api smallPlatform).step
            (.requestOtp "+15551234567", { drawsAt 0 50 with random := random })
            (Server.start smallDb)).2).any
        ((otpFlow smallPlatform).finds ((drawsAt 0 50).uuid 0)) = true).card ≤
      smallPlatform.settings.otpMaxAttempts :=
  otp_guesses_le smallPlatform (fun _ _ h => h) "+15551234567" (drawsAt 0 50)
    (Server.start smallDb) (by decide +kernel) countingPlayer 1000

end LinkedOut
