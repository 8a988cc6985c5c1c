/-
  One number, one identity: when two spellings of a phone number are the same to
  `_normalize_phone`.

  The normaliser drops everything but digits and plus signs and keeps a plus sign wherever
  it stands. So two accepted spellings of the same digits have one hash exactly when their
  plus signs stand in the same places among the digits (`hashPhone_eq_iff`); and in a run
  whose spellings of each number agree on that, every state has at most one user and one OTP
  rate-limit bucket a number (`one_number_one_identity`). `second_plus_breaks` is a run with
  two users of one number.
-/
import LinkedOut.Effects

namespace LinkedOut

/-! ## Digits and plus signs -/

/-- The digits of a phone number, in order. -/
def phoneDigits (phone : String) : List Char := phone.toList.filter isDigit

/-- How many plus signs stand before the first digit, between each digit and the next, and
    after the last one. -/
def plusGaps : List Char → List Nat
  | [] => [0]
  | ch :: rest =>
    if isDigit ch then 0 :: plusGaps rest
    else if ch = '+' then
      match plusGaps rest with
      | [] => []
      | n :: gaps => (n + 1) :: gaps
    else plusGaps rest

/-- The plus signs stand in the same places among the digits. -/
def SamePlusSigns (a b : String) : Prop := plusGaps a.toList = plusGaps b.toList

instance : DecidableRel SamePlusSigns := fun _ _ => inferInstanceAs (Decidable (_ = _))

/-- What `_normalize_phone` keeps. -/
def isKept (ch : Char) : Bool := isDigit ch || ch == '+'

theorem exists_plusGaps (l : List Char) : ∃ n gaps, plusGaps l = n :: gaps := by
  induction l with
  | nil => exact ⟨0, [], rfl⟩
  | cons ch rest ih =>
    obtain ⟨n, gaps, h⟩ := ih
    unfold plusGaps
    rw [h]
    split
    · exact ⟨0, n :: gaps, rfl⟩
    · split
      · exact ⟨n + 1, gaps, rfl⟩
      · exact ⟨n, gaps, rfl⟩

/-- What is dropped changes neither the digits nor the gaps. -/
theorem plusGaps_filter (l : List Char) : plusGaps (l.filter isKept) = plusGaps l := by
  induction l with
  | nil => rfl
  | cons ch rest ih =>
    rw [List.filter_cons]
    split
    · simp only [plusGaps, ih]
    · rename_i hdropped
      have hneither : isDigit ch = false ∧ ch ≠ '+' := by simpa [isKept] using hdropped
      rw [ih, plusGaps, if_neg (by rw [hneither.1]; exact Bool.false_ne_true), if_neg hneither.2]

theorem digits_filter (l : List Char) : (l.filter isKept).filter isDigit = l.filter isDigit := by
  rw [List.filter_filter]
  refine List.filter_congr fun ch _ => ?_
  unfold isKept
  cases isDigit ch <;> rfl

/-- The spelling with these digits and gaps, and nothing else in it. -/
def respell : List Char → List Nat → List Char
  | [], gaps => List.replicate (gaps.headD 0) '+'
  | d :: ds, gaps => List.replicate (gaps.headD 0) '+' ++ d :: respell ds gaps.tail

theorem respell_succ (ds : List Char) (n : Nat) (gaps : List Nat) :
    respell ds ((n + 1) :: gaps) = '+' :: respell ds (n :: gaps) := by
  cases ds <;> simp [respell, List.replicate_succ]

/-- Digits and plus signs are read back from the digits and the gaps. -/
theorem respell_digits_gaps {l : List Char} (hl : ∀ ch ∈ l, isKept ch = true) :
    respell (l.filter isDigit) (plusGaps l) = l := by
  induction l with
  | nil => rfl
  | cons ch rest ih =>
    have hrest := ih fun c hc => hl c (List.mem_cons_of_mem _ hc)
    by_cases hdigit : isDigit ch = true
    · rw [List.filter_cons, if_pos hdigit, plusGaps, if_pos hdigit]
      show respell (ch :: _) (0 :: _) = _
      rw [respell, List.tail_cons, hrest]
      rfl
    · have hplus : ch = '+' := by
        have hkept := hl ch List.mem_cons_self
        unfold isKept at hkept
        simpa [hdigit] using hkept
      obtain ⟨n, gaps, hgaps⟩ := exists_plusGaps rest
      rw [List.filter_cons, if_neg hdigit, plusGaps, if_neg hdigit, if_pos hplus, hgaps]
      rw [hgaps] at hrest
      rw [respell_succ, hrest, hplus]

/-! ## The hash -/

theorem normalizePhone_ok {phone n : String} (h : normalizePhone phone = .ok n) :
    n = String.ofList (phone.toList.filter isKept) := by
  unfold normalizePhone at h
  dsimp only at h
  split at h
  · exact (Except.ok.inj h).symm
  · cases h

/-- Two accepted spellings of the same digits normalise alike exactly when their plus signs
    stand in the same places. -/
theorem normalizePhone_eq_iff {a b n m : String} (ha : normalizePhone a = .ok n)
    (hb : normalizePhone b = .ok m) (hdigits : phoneDigits a = phoneDigits b) :
    n = m ↔ SamePlusSigns a b := by
  have hkept : ∀ s : String, ∀ ch ∈ s.toList.filter isKept, isKept ch = true :=
    fun s ch hch => (List.mem_filter.mp hch).2
  rw [normalizePhone_ok ha, normalizePhone_ok hb, String.ofList_inj]
  unfold SamePlusSigns
  constructor
  · intro h
    rw [← plusGaps_filter a.toList, h, plusGaps_filter]
  · intro h
    rw [← respell_digits_gaps (hkept a), ← respell_digits_gaps (hkept b), digits_filter,
      digits_filter, plusGaps_filter, plusGaps_filter, h]
    exact congrArg (respell · _) hdigits

theorem hashPhone_ok {p : Platform} {phone phoneHash : String}
    (h : hashPhone p phone = .ok phoneHash) :
    ∃ n, normalizePhone phone = .ok n ∧ p.hmac n = phoneHash := by
  unfold hashPhone at h
  cases hn : normalizePhone phone with
  | error e => rw [hn] at h; cases h
  | ok n => rw [hn] at h; exact ⟨n, rfl, Except.ok.inj h⟩

/-- They have the same hash under every key exactly then. -/
theorem hashPhone_eq_iff {a b : String} (ha : (normalizePhone a).isOk = true)
    (hb : (normalizePhone b).isOk = true) (hdigits : phoneDigits a = phoneDigits b) :
    (∀ p : Platform, hashPhone p a = hashPhone p b) ↔ SamePlusSigns a b := by
  cases hn : normalizePhone a with
  | error e => rw [hn] at ha; cases ha
  | ok n =>
  cases hm : normalizePhone b with
  | error e => rw [hm] at hb; cases hb
  | ok m =>
  rw [← normalizePhone_eq_iff hn hm hdigits]
  unfold hashPhone
  rw [hn, hm]
  constructor
  · intro hall
    exact Except.ok.inj (hall smallPlatform)
  · intro h p
    rw [h]

/-! ## The rows of a run -/

def Request.phone : Request → Option String
  | requestOtp phone => some phone
  | verifyOtp phone _ => some phone
  | _ => none

/-- The phones a run submits. -/
def submittedPhones (es : List (Request × Draws)) : List String :=
  es.filterMap fun e => e.1.phone

/-- Every stored phone hash is the hash of one of the phones. -/
structure HashesOf (p : Platform) (phones : List String) (db : Db) : Prop where
  users : ∀ u ∈ db.users.rows, ∃ a ∈ phones, hashPhone p a = .ok u.phoneHash
  otpCodes : ∀ c ∈ db.otpCodes.rows, ∃ a ∈ phones, hashPhone p a = .ok c.phoneHash

/-- Raising a user keeps the phone hashes. -/
theorem raiseToEmail_phoneHash {user u : User} {domainHash : String} {users : Table User}
    (hu : u ∈ (raiseToEmail user domainHash users).rows) :
    ∃ v ∈ users.rows, v.phoneHash = u.phoneHash := by
  -- one conditional update keeps them, and there are two
  have hupdate : ∀ (t : Table User) (f : Patch User) (c : Prop) [Decidable c],
      (∀ w, (f.apply w).phoneHash = w.phoneHash) → ∀ w ∈ (if c then t else t.update user.id f).rows,
        ∃ v ∈ t.rows, v.phoneHash = w.phoneHash := by
    intro t f c _ hf w hw
    split at hw
    · exact ⟨w, hw, rfl⟩
    · exact t.exists_of_mem_update User.phoneHash hf hw
  unfold raiseToEmail at hu
  dsimp only at hu
  rw [← ite_not] at hu
  obtain ⟨v, hv, hvu⟩ := hupdate _ _ _ (fun _ => rfl) u hu
  obtain ⟨w, hw, hwv⟩ := hupdate _ _ _ (fun _ => rfl) v hv
  exact ⟨w, hw, hwv.trans hvu⟩

/-- A phone hash that a transaction stores was stored before, or is that of the phone it was
    asked for. -/
theorem write_phoneHashes {p : Platform} {env : Env} {db db' : Db} {req : Request}
    {out : Response} (hwrite : Write p env db req out db') :
    (∀ u ∈ db'.users.rows, (∃ v ∈ db.users.rows, v.phoneHash = u.phoneHash) ∨
      ∃ a, req.phone = some a ∧ hashPhone p a = .ok u.phoneHash) ∧
    ∀ c ∈ db'.otpCodes.rows, (∃ d ∈ db.otpCodes.rows, d.phoneHash = c.phoneHash) ∨
      ∃ a, req.phone = some a ∧ hashPhone p a = .ok c.phoneHash := by
  have husers : ∀ u ∈ db.users.rows, (∃ v ∈ db.users.rows, v.phoneHash = u.phoneHash) ∨
      ∃ a, req.phone = some a ∧ hashPhone p a = .ok u.phoneHash := fun u hu => Or.inl ⟨u, hu, rfl⟩
  have hcodes : ∀ c ∈ db.otpCodes.rows, (∃ d ∈ db.otpCodes.rows, d.phoneHash = c.phoneHash) ∨
      ∃ a, req.phone = some a ∧ hashPhone p a = .ok c.phoneHash := fun c hc => Or.inl ⟨c, hc, rfl⟩
  cases hwrite with
  | otpIssued hphone _ hinsert =>
    refine ⟨husers, fun c hc => ?_⟩
    rcases (Table.mem_insert hinsert c).mp hc with hc | rfl
    · exact hcodes c hc
    · exact Or.inr ⟨_, rfl, hphone⟩
  | otpWrong _ _ =>
    exact ⟨husers, fun c hc => Or.inl (Table.exists_of_mem_update _ OTPCode.phoneHash
      (fun _ => rfl) hc)⟩
  | otpAccepted hphone _ hlogin =>
    refine ⟨fun u hu => ?_, fun c hc => Or.inl (Table.exists_of_mem_update _ OTPCode.phoneHash
      (fun _ => rfl) hc)⟩
    cases hlogin with
    | signup _ hinsert =>
      rcases (Table.mem_insert hinsert u).mp hu with hu | rfl
      · exact husers u hu
      · exact Or.inr ⟨_, rfl, hphone⟩
    | raise _ _ _ =>
      exact Or.inl (Table.exists_of_mem_update _ User.phoneHash (fun _ => rfl) hu)
    | again _ _ _ => exact husers u hu
  | emailAccepted _ _ _ => exact ⟨fun u hu => Or.inl (raiseToEmail_phoneHash hu), hcodes⟩
  | documentApproved _ _ _ _ _ =>
    exact ⟨fun u hu => Or.inl (Table.exists_of_mem_update _ User.phoneHash (fun _ => rfl) hu),
      hcodes⟩
  | _ => exact ⟨husers, hcodes⟩

theorem hashesOf_exec (p : Platform) (es : List (Request × Draws)) {s : Server}
    (husers : s.db.users.rows = []) (hcodes : s.db.otpCodes.rows = []) (n : Nat) :
    HashesOf p (submittedPhones es) ((Api p).exec (es.take n) s).db := by
  refine (Api p).exec_inv (I := fun t => HashesOf p (submittedPhones es) t.db)
    (C := fun _ e => ∀ a ∈ e.1.phone, a ∈ submittedPhones es) (fun t e he ht => ?_) _ s ?_ ?_
  · refine handle_rel (R := fun _ db' => HashesOf p (submittedPhones es) db') ht fun hwrite => ?_
    obtain ⟨hu, hc⟩ := write_phoneHashes hwrite
    constructor
    · intro u hmem
      rcases hu u hmem with ⟨v, hv, heq⟩ | ⟨a, ha, hash⟩
      · exact heq ▸ ht.users v hv
      · exact ⟨a, he a ha, hash⟩
    · intro c hmem
      rcases hc c hmem with ⟨d, hd, heq⟩ | ⟨a, ha, hash⟩
      · exact heq ▸ ht.otpCodes d hd
      · exact ⟨a, he a ha, hash⟩
  · constructor
    · intro u hu
      rw [husers] at hu
      cases hu
    · intro c hc
      rw [hcodes] at hc
      cases hc
  · rw [(Api p).along_iff]
    intro v hv a ha
    have hevent := List.mem_of_mem_take ((Api p).event_mem hv)
    exact List.mem_filterMap.mpr ⟨v.event, hevent, ha⟩

/-! ## One identity -/

/-- Every stored phone hash is that of a phone submitted in the run; phones with the same digits
    lead to one user and to one hash that the rate limit counts. -/
structure OneIdentity (p : Platform) (phones : List String) (db : Db) : Prop where
  submitted : HashesOf p phones db
  oneUser : ∀ u ∈ db.users.rows, ∀ v ∈ db.users.rows, ∀ a ∈ phones, ∀ b ∈ phones,
    hashPhone p a = .ok u.phoneHash → hashPhone p b = .ok v.phoneHash →
      phoneDigits a = phoneDigits b → u = v
  oneBucket : ∀ c ∈ db.otpCodes.rows, ∀ d ∈ db.otpCodes.rows, ∀ a ∈ phones, ∀ b ∈ phones,
    hashPhone p a = .ok c.phoneHash → hashPhone p b = .ok d.phoneHash →
      phoneDigits a = phoneDigits b → c.phoneHash = d.phoneHash

/-- Accepted phones with the same digits have their plus signs in the same places. -/
def SpelledAlike (phones : List String) : Prop :=
  ∀ a ∈ phones, ∀ b ∈ phones, (normalizePhone a).isOk = true → (normalizePhone b).isOk = true →
    phoneDigits a = phoneDigits b → SamePlusSigns a b

theorem isOk_of_hash {p : Platform} {phone phoneHash : String}
    (h : hashPhone p phone = .ok phoneHash) : (normalizePhone phone).isOk = true := by
  obtain ⟨n, hn, -⟩ := hashPhone_ok h
  rw [hn]
  rfl

theorem hash_eq_of_spelledAlike {p : Platform} {phones : List String} (h : SpelledAlike phones)
    {a b ha hb : String} (hamem : a ∈ phones) (hbmem : b ∈ phones)
    (hahash : hashPhone p a = .ok ha) (hbhash : hashPhone p b = .ok hb)
    (hdigits : phoneDigits a = phoneDigits b) : ha = hb := by
  have haok := isOk_of_hash hahash
  have hbok := isOk_of_hash hbhash
  have hsame := (hashPhone_eq_iff haok hbok hdigits).mpr (h a hamem b hbmem haok hbok hdigits) p
  rw [hahash, hbhash] at hsame
  exact Except.ok.inj hsame

/-- Two accepted spellings of the same digits have one hash under every key exactly when their
    plus signs stand in the same places; and in a run whose spellings of each number agree on
    that, every state has one identity a number. -/
theorem one_number_one_identity (p : Platform) (es : List (Request × Draws)) (s : Server)
    (husers : s.db.users.rows = []) (hcodes : s.db.otpCodes.rows = []) :
    (∀ a b : String, (normalizePhone a).isOk = true → (normalizePhone b).isOk = true →
      phoneDigits a = phoneDigits b →
        ((∀ q : Platform, hashPhone q a = hashPhone q b) ↔ SamePlusSigns a b)) ∧
    (SpelledAlike (submittedPhones es) →
      ∀ n, OneIdentity p (submittedPhones es) ((Api p).exec (es.take n) s).db) := by
  refine ⟨fun a b => hashPhone_eq_iff, fun halike n => ?_⟩
  refine ⟨hashesOf_exec p es husers hcodes n, fun u hu v hv a ha b hb hau hbv hdigits => ?_,
    fun c _ d _ a ha b hb hac hbd hdigits => hash_eq_of_spelledAlike halike ha hb hac hbd hdigits⟩
  -- `phone_hash` is unique
  have hhash := hash_eq_of_spelledAlike halike ha hb hau hbv hdigits
  refine Table.eq_of_clash _ hu hv ?_
  show (u.id == v.id || u.phoneHash == v.phoneHash) = true
  rw [hhash, beq_self_eq_true, Bool.or_true]

/-- Nobody has signed up. -/
def freshServer : Server := .start { smallDb with users := .empty }

/-- One phone signs in under two spellings; every code drawn is 000000. -/
def signInTwice (first second : String) : List (Request × Draws) :=
  [(.requestOtp first, drawsAt 0 30), (.verifyOtp first "000000", drawsAt 1 31),
    (.requestOtp second, drawsAt 2 32), (.verifyOtp second "000000", drawsAt 3 33)]

theorem punctuation_one_identity :
    (∀ p : Platform, hashPhone p "+1 (555) 123-4567" = hashPhone p "+15551234567") ∧
      ∀ n, OneIdentity smallPlatform
        (submittedPhones (signInTwice "+1 (555) 123-4567" "+15551234567"))
        ((Api smallPlatform).exec
          ((signInTwice "+1 (555) 123-4567" "+15551234567").take n) freshServer).db := by
  obtain ⟨hspellings, hrun⟩ := one_number_one_identity smallPlatform
    (signInTwice "+1 (555) 123-4567" "+15551234567") freshServer rfl rfl
  refine ⟨(hspellings _ _ ?_ ?_ ?_).mpr ?_, hrun (by unfold SpelledAlike; decide +kernel)⟩
  all_goals decide +kernel

/-- A second plus sign makes another number of it: another hash, and another user. -/
theorem second_plus_breaks :
    (¬ ∀ (p : Platform) (a b : String), (normalizePhone a).isOk = true →
      (normalizePhone b).isOk = true → phoneDigits a = phoneDigits b →
        hashPhone p a = hashPhone p b) ∧
    ¬ ∀ (p : Platform) (es : List (Request × Draws)) (s : Server), s.db.users.rows = [] →
      s.db.otpCodes.rows = [] → ∀ n,
        OneIdentity p (submittedPhones es) ((Api p).exec (es.take n) s).db := by
  constructor
  · intro hall
    have hsame := hall smallPlatform "+15551234567" "+1+5551234567" (by decide +kernel)
      (by decide +kernel) (by decide +kernel)
    revert hsame
    decide +kernel
  · intro hall
    have hone := (hall smallPlatform (signInTwice "+15551234567" "+1+5551234567") freshServer
      rfl rfl 4).oneUser ⟨31, "+15551234567", none, .phone⟩ (by decide +kernel)
      ⟨33, "+1+5551234567", none, .phone⟩ (by decide +kernel) "+15551234567" (by decide +kernel)
      "+1+5551234567" (by decide +kernel) (by decide +kernel) (by decide +kernel)
      (by decide +kernel)
    exact absurd (congrArg User.id hone) (by decide)

end LinkedOut
