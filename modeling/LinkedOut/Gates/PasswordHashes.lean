/-
  Stored admin password hashes, across changes of the cost.

  A stored hash stands for a `Credential`: the count and the salt it was made with, and the
  digest. `ReadsAs` is how a text is read as one. The text that `hash_password` returns reads
  as the credential it was made from (`readsAs_text`: the three fields contain no `$`, and
  `int` and `bytes.fromhex` undo `str` and `bytes.hex`), and the check accepts a password
  exactly when the stored text reads as a credential that does
  (`verifyPassword_eq_true_iff`); so does the admin login (`adminLogin_hashed`).

  `_PBKDF2_ITERATIONS` is state that a release changes and only `hash_password` looks at, so
  what it has returned is verified alike under every later value (`hashes_survive`).
-/
import Mathlib.Data.List.TakeWhile
import LinkedOut.Machine
import LinkedOut.Api

namespace LinkedOut

/-! ## `int` undoes `str` -/

theorem intChar_of_isDigit {c : Char} (h : c.isDigit = true) : intChar c = c := by
  have hrange := digit_range h
  exact if_pos (by omega)

theorem not_isBlank_of_isDigit {c : Char} (h : c.isDigit = true) : isBlank c = false := by
  have hrange := digit_range h
  simp only [isBlank, inRanges, List.any_cons, List.any_nil, Bool.or_false, Bool.or_eq_false_iff,
    Bool.and_eq_false_iff, decide_eq_false_iff_not]
  omega

theorem dropWhile_isBlank {digits : List Char} (h : ∀ c ∈ digits, c.isDigit = true) :
    digits.dropWhile isBlank = digits := by
  refine List.dropWhile_eq_self_iff.mpr fun _ => ?_
  rw [not_isBlank_of_isDigit (h _ (List.getElem_mem _))]
  exact Bool.false_ne_true

theorem intDigits_of_digits {digits : List Char} (h : ∀ c ∈ digits, c.isDigit = true)
    (value : Nat) : intDigits value digits = some (Nat.ofDigitChars 10 digits value) := by
  induction digits generalizing value with
  | nil => rfl
  | cons c digits ih =>
    have hc := h c List.mem_cons_self
    cases digits with
    | nil =>
      rw [intDigits, if_pos hc]
      rfl
    | cons d digits =>
      have hd : (d == '_') = false := by
        refine beq_false_of_ne ?_
        rintro rfl
        exact absurd (h '_' (by simp)) (by decide)
      rw [intDigits, if_pos hc, hd, Nat.ofDigitChars_cons]
      exact ih (fun x hx => h x (List.mem_cons_of_mem _ hx)) _

theorem pyInt_of_digits {digits : List Char} (hne : digits ≠ [])
    (h : ∀ c ∈ digits, c.isDigit = true) :
    pyInt (String.ofList digits) = some (Int.ofNat (Nat.ofDigitChars 10 digits 0)) := by
  have hmap : digits.map intChar = digits := by
    rw [List.map_congr_left fun c hc => intChar_of_isDigit (h c hc)]
    exact List.map_id _
  have hreverse : ∀ c ∈ digits.reverse, c.isDigit = true :=
    fun c hc => h c (List.mem_reverse.mp hc)
  have hread := intDigits_of_digits h 0
  obtain ⟨c, rest, rfl⟩ := List.exists_cons_of_ne_nil hne
  have hc := h c List.mem_cons_self
  unfold pyInt
  rw [String.toList_ofList, hmap, dropWhile_isBlank h]
  dsimp only
  rw [dropWhile_isBlank hreverse, List.reverse_reverse]
  -- a digit is no sign
  split
  case h_1 heq => cases heq
  case h_2 heq => exact absurd hc (by rw [(List.cons.inj heq).1]; decide)
  case h_3 heq => exact absurd hc (by rw [(List.cons.inj heq).1]; decide)
  case h_4 heq => exact absurd hc (by rw [(List.cons.inj heq).1]; decide)
  case h_5 heq => exact absurd hc (by rw [(List.cons.inj heq).1]; decide)
  case h_6 => rw [hread, Option.map_some]

theorem isDigit_of_mem_toString {n : Nat} {c : Char} (hc : c ∈ (toString n).toList) :
    c.isDigit = true := by
  rw [Nat.toString_eq_repr, Nat.toList_repr] at hc
  exact Nat.isDigit_of_mem_toDigits (by decide) (by decide) hc

theorem pyInt_toString (n : Nat) : pyInt (toString n) = some (n : Int) := by
  have hdigits : ∀ c ∈ Nat.toDigits 10 n, c.isDigit = true :=
    fun c hc => Nat.isDigit_of_mem_toDigits (by decide) (by decide) hc
  have hread := pyInt_of_digits Nat.toDigits_ne_nil hdigits
  rw [Nat.ofDigitChars_ten_toDigits] at hread
  exact hread

/-! ## `bytes.fromhex` undoes `bytes.hex` -/

theorem hexDigit_digitChar : ∀ n < 16, hexDigit n.digitChar = some n := by decide

theorem not_isBlank_digitChar : ∀ n < 16, isBlank n.digitChar = false := by decide

theorem fromHex_toHex (bytes : List UInt8) : fromHex (toHex bytes).toList = some bytes := by
  rw [toHex, String.toList_ofList]
  induction bytes with
  | nil => rfl
  | cons b bytes ih =>
    have hb : b.toNat < 256 := b.toNat_lt
    have hhigh : b.toNat / 16 < 16 := by omega
    have hlow : b.toNat % 16 < 16 := Nat.mod_lt _ (by decide)
    have hbyte : UInt8.ofNat (16 * (b.toNat / 16) + b.toNat % 16) = b := by
      rw [Nat.div_add_mod, UInt8.ofNat_toNat]
    rw [List.flatMap_cons, List.cons_append, List.cons_append, List.nil_append, fromHex,
      not_isBlank_digitChar _ hhigh, hexDigit_digitChar _ hhigh, hexDigit_digitChar _ hlow, ih]
    exact congrArg (fun b => some (b :: bytes)) hbyte

theorem dollar_not_mem_toString (n : Nat) : '$' ∉ (toString n).toList :=
  fun h => absurd (isDigit_of_mem_toString h) (by decide)

theorem dollar_not_mem_toHex (bytes : List UInt8) : '$' ∉ (toHex bytes).toList := by
  rw [toHex, String.toList_ofList, List.mem_flatMap]
  rintro ⟨b, -, hb⟩
  have hne : ∀ n : Nat, '$' ≠ n.digitChar := fun n h => Nat.digitChar_ne '$' (by decide) h.symm
  rcases List.mem_pair.mp hb with h | h
  · exact hne _ h
  · exact hne _ h

/-! ## What a stored hash stands for -/

/-- A count, a salt and the digest of a password under them. -/
structure Credential where
  iterations : Nat
  salt : List UInt8
  digest : List UInt8
  positive : 1 ≤ iterations

namespace Credential

variable (p : Platform)

/-- The password has the digest. -/
def accepts (c : Credential) (password : String) : Bool :=
  p.pbkdf2 password c.salt c.iterations == c.digest

/-- The credential of a password. -/
def made {iterations : Nat} (h : 1 ≤ iterations) (salt : List UInt8) (password : String) :
    Credential :=
  ⟨iterations, salt, p.pbkdf2 password salt iterations, h⟩

def text (c : Credential) : String :=
  "pbkdf2_sha256$" ++ toString c.iterations ++ "$" ++ toHex c.salt ++ "$" ++ toHex c.digest

/-- The stored text has four fields, which read as the credential. -/
def ReadsAs (storedHash : String) (c : Credential) : Prop :=
  ∃ iterationsStr saltHex digestHex,
    storedHash.toList.splitOn '$' = ["pbkdf2_sha256".toList, iterationsStr, saltHex, digestHex] ∧
      pyInt (String.ofList iterationsStr) = some (c.iterations : Int) ∧
      fromHex saltHex = some c.salt ∧ fromHex digestHex = some c.digest

variable {p} {c d : Credential} {storedHash password : String}

theorem splitOn_text (c : Credential) :
    c.text.toList.splitOn '$' = ["pbkdf2_sha256".toList, (toString c.iterations).toList,
      (toHex c.salt).toList, (toHex c.digest).toList] := by
  -- the three fields are made variables, so that nothing evaluates a text
  have hjoined : c.text.toList = ['$'].intercalate ["pbkdf2_sha256".toList,
      (toString c.iterations).toList, (toHex c.salt).toList, (toHex c.digest).toList] := by
    unfold text
    generalize toString c.iterations = iterationsStr
    generalize toHex c.salt = saltHex
    generalize toHex c.digest = digestHex
    have hname : "pbkdf2_sha256$".toList = "pbkdf2_sha256".toList ++ ['$'] := by decide
    have hdollar : "$".toList = ['$'] := by decide
    simp only [String.toList_append, hname, hdollar, List.intercalate, List.intersperse,
      List.flatten_cons, List.flatten_nil, List.append_assoc, List.append_nil]
  rw [hjoined]
  refine List.splitOn_intercalate '$' (fun field hfield => ?_) (List.cons_ne_nil _ _)
  simp only [List.mem_cons, List.not_mem_nil, or_false] at hfield
  rcases hfield with rfl | rfl | rfl | rfl
  · decide
  · exact dollar_not_mem_toString _
  · exact dollar_not_mem_toHex _
  · exact dollar_not_mem_toHex _

/-- The text of a credential reads as it. -/
theorem readsAs_text (c : Credential) : ReadsAs c.text c := by
  refine ⟨(toString c.iterations).toList, (toHex c.salt).toList, (toHex c.digest).toList,
    splitOn_text c, ?_, fromHex_toHex c.salt, fromHex_toHex c.digest⟩
  rw [String.ofList_toList]
  exact pyInt_toString c.iterations

theorem made_accepts_iff {iterations : Nat} {h : 1 ≤ iterations} {salt : List UInt8}
    {other : String} :
    (made p h salt password).accepts p other = true ↔
      p.pbkdf2 other salt iterations = p.pbkdf2 password salt iterations := by
  unfold accepts made
  exact beq_iff_eq

/-- A text reads as one credential. -/
theorem ReadsAs.unique (hc : ReadsAs storedHash c) (hd : ReadsAs storedHash d) : c = d := by
  obtain ⟨iterationsStr, saltHex, digestHex, hfields, hcount, hsalt, hdigest⟩ := hc
  obtain ⟨iterationsStr', saltHex', digestHex', hfields', hcount', hsalt', hdigest'⟩ := hd
  rw [hfields] at hfields'
  simp only [List.cons.injEq, and_true, true_and] at hfields'
  obtain ⟨rfl, rfl, rfl⟩ := hfields'
  have hiterations : c.iterations = d.iterations :=
    Int.ofNat.inj (Option.some.inj (hcount.symm.trans hcount'))
  cases c
  cases d
  obtain rfl := hiterations
  obtain rfl := Option.some.inj (hsalt.symm.trans hsalt')
  obtain rfl := Option.some.inj (hdigest.symm.trans hdigest')
  rfl

/-- The check is the credential's. -/
theorem ReadsAs.verifyPassword (h : ReadsAs storedHash c) (password : String) :
    LinkedOut.verifyPassword p password storedHash = .ok (c.accepts p password) := by
  obtain ⟨iterationsStr, saltHex, digestHex, hfields, hcount, hsalt, hdigest⟩ := h
  have hpositive : ¬ (c.iterations : Int) < 1 := by
    have := c.positive
    omega
  unfold LinkedOut.verifyPassword
  rw [hfields]
  dsimp only
  rw [String.ofList_toList, if_neg (fun hne => hne rfl), hcount, hsalt, hdigest]
  dsimp only
  rw [if_neg hpositive, Int.toNat_natCast]
  rfl

/-- A text that is accepted reads as a credential. -/
theorem exists_readsAs (h : LinkedOut.verifyPassword p password storedHash = .ok true) :
    ∃ c, ReadsAs storedHash c := by
  unfold LinkedOut.verifyPassword at h
  split at h
  case h_1 algorithm iterationsStr saltHex digestHex hfields =>
    split at h
    · cases h
    · rename_i halgorithm
      split at h
      case h_1 iterations salt expected hcount hsalt hdigest =>
        split at h
        · cases h
        · rename_i hpositive
          have hname : algorithm = "pbkdf2_sha256".toList := by
            rw [← not_not.mp halgorithm, String.toList_ofList]
          refine ⟨⟨iterations.toNat, salt, expected, by omega⟩, iterationsStr, saltHex, digestHex,
            by rw [hfields, hname], ?_, hsalt, hdigest⟩
          rw [hcount, Int.toNat_of_nonneg (by omega)]
      case h_2 => cases h
  case h_2 => cases h

end Credential

/-- A password is accepted exactly when the stored text reads as a credential that accepts
    it. -/
theorem verifyPassword_eq_true_iff {p : Platform} {password storedHash : String} :
    verifyPassword p password storedHash = .ok true ↔
      ∃ c, Credential.ReadsAs storedHash c ∧ c.accepts p password = true := by
  constructor
  · intro h
    obtain ⟨c, hc⟩ := Credential.exists_readsAs h
    rw [hc.verifyPassword] at h
    exact ⟨c, hc, Except.ok.inj h⟩
  · rintro ⟨c, hc, haccepts⟩
    rw [hc.verifyPassword, haccepts]

/-- What is returned is the text of the password's credential. -/
theorem hashPassword_eq_some_iff {p : Platform} {iterations : Nat} {salt : List UInt8}
    {password stored : String} :
    hashPassword p iterations salt password = some stored ↔
      ∃ h : 1 ≤ iterations, stored = (Credential.made p h salt password).text := by
  unfold hashPassword
  split
  · rename_i hzero
    constructor
    · intro h
      cases h
    · rintro ⟨h, -⟩
      omega
  · rename_i hpositive
    constructor
    · intro h
      exact ⟨by omega, (Option.some.inj h).symm⟩
    · rintro ⟨-, rfl⟩
      rfl

/-! ## Admin login -/

section

variable {p : Platform} {env : Env} {db : Db} {admin : AdminUser} {email : String}

theorem scalarOneOrNone_email (hadmin : admin ∈ db.adminUsers.rows) :
    scalarOneOrNone ((Lookup.adminByEmail admin.email).rows db) = .ok (some admin) :=
  scalarOneOrNone_of_mem id
    ((db.adminUsers.mem_select _ _).mpr ⟨hadmin, beq_self_eq_true admin.email⟩)

/-- The login of an active admin whose stored hash reads as a credential. -/
theorem adminLogin_of_readsAs {c : Credential} (hadmin : admin ∈ db.adminUsers.rows)
    (hactive : admin.isActive = true) (hstored : Credential.ReadsAs admin.passwordHash c)
    (hemail : p.lower (strip email) = admin.email) (hstorable : storable admin.email = true)
    {password : String} (hpassword : 1 ≤ password.length) :
    adminLogin p env email password db =
      if c.accepts p password then
        .ok { accessToken := createAdminToken p (env.now 0) admin.id, adminId := admin.id }
      else .error invalidCredentials := by
  have hvalid : validate [("body.password", decide (1 ≤ password.length))] = .ok () := by
    rw [decide_eq_true hpassword]
    rfl
  have hraise : raiseIf (!storable admin.email) internalServerError = .ok () := by
    rw [hstorable]
    rfl
  unfold adminLogin
  rw [hvalid, ok_bind]
  dsimp only
  rw [hemail, hraise, ok_bind, scalarOneOrNone_email hadmin, ok_bind]
  dsimp only
  rw [hactive, Bool.not_true, if_neg Bool.false_ne_true, hstored.verifyPassword, ok_bind]

/-- An admin whose stored hash `hash_password` once returned, under whatever count, logs in
    with the passwords of the same digest and no others. -/
theorem adminLogin_hashed {iterations : Nat} {salt : List UInt8} {password other : String}
    (hadmin : admin ∈ db.adminUsers.rows) (hactive : admin.isActive = true)
    (hstored : hashPassword p iterations salt password = some admin.passwordHash)
    (hemail : p.lower (strip email) = admin.email) (hstorable : storable admin.email = true)
    (hother : 1 ≤ other.length) :
    adminLogin p env email other db =
      if p.pbkdf2 other salt iterations = p.pbkdf2 password salt iterations then
        .ok { accessToken := createAdminToken p (env.now 0) admin.id, adminId := admin.id }
      else .error invalidCredentials := by
  obtain ⟨hcost, htext⟩ := hashPassword_eq_some_iff.mp hstored
  have hreads : Credential.ReadsAs admin.passwordHash (Credential.made p hcost salt password) :=
    htext ▸ Credential.readsAs_text _
  rw [adminLogin_of_readsAs hadmin hactive hreads hemail hstorable hother]
  exact if_congr Credential.made_accepts_iff rfl rfl

end

/-! ## Across releases -/

/-- What happens to the module: another release runs, with a `_PBKDF2_ITERATIONS` of its own,
    or one of the two functions is called. -/
inductive PasswordEvent where
  | release (iterations : Nat)
  | hash (password : String) (salt : List UInt8)
  | verify (password storedHash : String)
  deriving DecidableEq

inductive PasswordAnswer where
  | released
  | hashed (stored : Option String)
  | verified (result : Except HttpException Bool)

/-- The state is `_PBKDF2_ITERATIONS`. -/
def passwords (p : Platform) : Machine PasswordEvent Nat PasswordAnswer where
  step e iterations :=
    match e with
    | .release new => (.released, new)
    | .hash password salt => (.hashed (hashPassword p iterations salt password), iterations)
    | .verify password storedHash =>
      (.verified (verifyPassword p password storedHash), iterations)

/-- What is hashed under any count of at least 1 is verified after every later course of
    releases and calls, by the salt and the count it was hashed with. -/
theorem hashes_survive (p : Platform) {iterations : Nat} (hcost : 1 ≤ iterations)
    (password : String) (salt : List UInt8) :
    ∃ stored, ((passwords p).step (.hash password salt) iterations).1 = .hashed (some stored) ∧
      ∀ later : List PasswordEvent,
        let current := (passwords p).exec later iterations
        ((passwords p).step (.verify password stored) current).1 = .verified (.ok true) ∧
        ∀ other, ∃ answer,
          ((passwords p).step (.verify other stored) current).1 = .verified (.ok answer) ∧
          (answer = true ↔ p.pbkdf2 other salt iterations = p.pbkdf2 password salt iterations) := by
  let c := Credential.made p hcost salt password
  have hhash : hashPassword p iterations salt password = some c.text :=
    hashPassword_eq_some_iff.mpr ⟨hcost, rfl⟩
  -- no later step is looked at: the text alone decides
  have hverify (other : String) (current : Nat) :
      ((passwords p).step (.verify other c.text) current).1 =
        .verified (.ok (c.accepts p other)) :=
    congrArg PasswordAnswer.verified ((Credential.readsAs_text c).verifyPassword other)
  refine ⟨c.text, congrArg PasswordAnswer.hashed hhash, fun later => ⟨?_, fun other => ?_⟩⟩
  · have haccepts : c.accepts p password = true := Credential.made_accepts_iff.mpr rfl
    rw [hverify, haccepts]
  · exact ⟨c.accepts p other, hverify other _, Credential.made_accepts_iff⟩

/-- The digest of this platform is the password itself: what was hashed at 260000 accepts
    after the raise to 600000 the same password and no other. -/
theorem hashes_survive_raise :
    ∃ stored, ((passwords smallPlatform).step (.hash "hunter2" [7, 255]) 260000).1 =
        .hashed (some stored) ∧
      let current := (passwords smallPlatform).exec [.release pbkdf2Iterations] 260000
      current = 600000 ∧
        ((passwords smallPlatform).step (.verify "hunter2" stored) current).1 =
          .verified (.ok true) ∧
        ((passwords smallPlatform).step (.verify "hunter3" stored) current).1 =
          .verified (.ok false) := by
  have hdigests : smallPlatform.pbkdf2 "hunter3" [7, 255] 260000 ≠
      smallPlatform.pbkdf2 "hunter2" [7, 255] 260000 := by decide +kernel
  obtain ⟨stored, hhash, hlater⟩ :=
    hashes_survive smallPlatform (by decide : 1 ≤ 260000) "hunter2" [7, 255]
  obtain ⟨htrue, hother⟩ := hlater [.release pbkdf2Iterations]
  obtain ⟨answer, hanswer, hiff⟩ := hother "hunter3"
  refine ⟨stored, hhash, rfl, htrue, ?_⟩
  rw [hanswer, Bool.eq_false_iff.mpr (mt hiff.mp hdigests)]

end LinkedOut
