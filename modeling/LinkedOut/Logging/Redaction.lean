/-
  `_redact` of `app/core/logging.py`: two substitutions, e-mail addresses first and then
  phone numbers.

  `redact_clean`: what comes out holds no match of either pattern, so redacting again
  changes nothing. A match in the output is made of letters the substitution kept, and it
  stands in the text it was made from. That suffices for the e-mail pattern, which does not
  look around; the phone pattern may see another neighbour there, which is an end of a
  placeholder where a match was.

  Texts are lists of characters. Letters may carry marks (`redactOver`).
-/
import LinkedOut.Regex.Scan
import LinkedOut.Security

namespace LinkedOut

open Regex

/-! ## The patterns -/

/-- `[a-zA-Z0-9._%+\-]` -/
def isLocal (c : Char) : Bool :=
  c.isAlphanum || c == '.' || c == '_' || c == '%' || c == '+' || c == '-'

/-- `[a-zA-Z0-9.\-]` -/
def isDomain (c : Char) : Bool := c.isAlphanum || c == '.' || c == '-'

/-- `_EMAIL_RE`: `[a-zA-Z0-9._%+\-]+@[a-zA-Z0-9.\-]+\.[a-zA-Z]{2,}` -/
def emailRe : Regex Char :=
  .seq (.plus (.set isLocal)) <| .seq (.set (· == '@')) <| .seq (.plus (.set isDomain)) <|
    .seq (.set (· == '.')) (.rep (.set Char.isAlpha) 2 none)

/-- `[\d\-\s]` -/
def isSpread (c : Char) : Bool := isDecimal c || c == '-' || isSpace c

def noDecimal (c : Option Char) : Bool := !c.any isDecimal

/-- `_PHONE_RE`: `(?<!\d)(\+?\d[\d\-\s]{7,14}\d)(?!\d)` -/
def phoneRe : Regex Char :=
  .seq (.look fun before _ => noDecimal before) <| .seq (.opt (.set (· == '+'))) <|
    .seq (.set isDecimal) <| .seq (.rep (.set isSpread) 7 (some 14)) <|
      .seq (.set isDecimal) (.look fun _ after => noDecimal after)

def redactedEmail : List Char := "[REDACTED_EMAIL]".toList

def redactedPhone : List Char := "[REDACTED_PHONE]".toList

/-- `_redact` -/
def redact (text : String) : String :=
  let text := emailRe.sub redactedEmail text.toList
  String.ofList (phoneRe.sub redactedPhone text)

example : redact "mail ann@acme.com or +1 555-123-4567" =
    "mail [REDACTED_EMAIL] or [REDACTED_PHONE]" := by decide

/-! ## What the patterns match -/

/-- An e-mail address. -/
inductive EmailWord : List Char → Prop
  | mk {user domain top : List Char} (huser : user ≠ []) (hlocal : ∀ c ∈ user, isLocal c = true)
      (hdomain : domain ≠ []) (hchars : ∀ c ∈ domain, isDomain c = true) (htop : 2 ≤ top.length)
      (halpha : ∀ c ∈ top, c.isAlpha = true) : EmailWord (user ++ '@' :: (domain ++ '.' :: top))

/-- A phone number without its sign. -/
inductive PhoneBody : List Char → Prop
  | mk {x y : Char} {middle : List Char} (hx : isDecimal x = true) (hy : isDecimal y = true)
      (hmin : 7 ≤ middle.length) (hmax : middle.length ≤ 14)
      (hspread : ∀ c ∈ middle, isSpread c = true) : PhoneBody (x :: (middle ++ [y]))

/-- A phone number. -/
def PhoneWord (w : List Char) : Prop := PhoneBody w ∨ ∃ v, w = '+' :: v ∧ PhoneBody v

theorem emailRe_spells {b w a : List Char} : emailRe.Spells b w a ↔ EmailWord w := by
  constructor
  · rintro ⟨user, -, rfl, huser, -, -, rfl, ⟨at_, hat, rfl⟩, domain, -, rfl, hdomain, -, top, rfl,
      ⟨dot, hdot, rfl⟩, htop⟩
    obtain ⟨hne, hlocal⟩ := spells_plus_set.mp huser
    obtain ⟨hne', hchars⟩ := spells_plus_set.mp hdomain
    obtain ⟨hlen, -, halpha⟩ := spells_rep_set.mp htop
    obtain rfl : at_ = '@' := by simpa using hat
    obtain rfl : dot = '.' := by simpa using hdot
    exact .mk hne hlocal hne' hchars hlen halpha
  · rintro ⟨huser, hlocal, hdomain, hchars, htop, halpha⟩
    exact ⟨_, _, rfl, spells_plus_set.mpr ⟨huser, hlocal⟩, ['@'], _, rfl, ⟨'@', by simp, rfl⟩, _, _,
      rfl, spells_plus_set.mpr ⟨hdomain, hchars⟩, ['.'], _, rfl, ⟨'.', by simp, rfl⟩,
      spells_rep_set.mpr ⟨htop, (fun m hm => nomatch hm), halpha⟩⟩

theorem phoneRe_spells {b w a : List Char} :
    phoneRe.Spells b w a ↔
      noDecimal b.head? = true ∧ noDecimal a.head? = true ∧ PhoneWord w := by
  constructor
  · rintro ⟨-, -, rfl, ⟨rfl, hbefore⟩, sign, -, rfl, hsign, -, -, rfl, ⟨x, hx, rfl⟩, middle, -, rfl,
      hmiddle, -, -, rfl, ⟨y, hy, rfl⟩, rfl, hafter⟩
    obtain ⟨hmin, hmax, hspread⟩ := spells_rep_set.mp hmiddle
    have hbody : PhoneBody (x :: (middle ++ [y])) := .mk hx hy hmin (hmax 14 rfl) hspread
    refine ⟨hbefore, hafter, ?_⟩
    rcases spells_opt_set.mp hsign with rfl | ⟨c, hc, rfl⟩
    · exact Or.inl hbody
    · obtain rfl : c = '+' := by simpa using hc
      exact Or.inr ⟨_, rfl, hbody⟩
  · have hspells : ∀ sign v, (sign = [] ∨ ∃ c, (c == '+') = true ∧ sign = [c]) →
        noDecimal b.head? = true → noDecimal a.head? = true → PhoneBody v →
        phoneRe.Spells b (sign ++ v) a := by
      rintro sign - hsign hbefore hafter ⟨hx, hy, hmin, hmax, hspread⟩
      exact ⟨[], _, rfl, ⟨rfl, hbefore⟩, sign, _, rfl, spells_opt_set.mpr hsign, [_], _, rfl,
        ⟨_, hx, rfl⟩, _, [_], rfl,
        spells_rep_set.mpr ⟨hmin, fun m hm => Option.some.inj hm ▸ hmax, hspread⟩, [_], [], rfl,
        ⟨_, hy, rfl⟩, rfl, hafter⟩
    rintro ⟨hbefore, hafter, hbody | ⟨v, rfl, hbody⟩⟩
    · exact hspells [] w (Or.inl rfl) hbefore hafter hbody
    · exact hspells ['+'] v (Or.inr ⟨'+', by decide, rfl⟩) hbefore hafter hbody

theorem emailRe_plain : emailRe.Plain := ⟨trivial, trivial, trivial, trivial, trivial⟩

/-- The characters of an address. -/
def isEmailChar (c : Char) : Bool := isLocal c || c == '@'

/-- The characters of a number. -/
def isPhoneChar (c : Char) : Bool := isSpread c || c == '+'

theorem isLocal_of_isAlpha {c : Char} (h : c.isAlpha = true) : isLocal c = true := by
  simp [isLocal, Char.isAlphanum, h]

theorem isLocal_of_isDomain {c : Char} (h : isDomain c = true) : isLocal c = true := by
  simp only [isDomain, Bool.or_eq_true] at h
  rcases h with (h | h) | h
  · simp [isLocal, h]
  · simp [isLocal, h]
  · simp [isLocal, h]

theorem isSpread_of_isDecimal {c : Char} (h : isDecimal c = true) : isSpread c = true := by
  simp [isSpread, h]

theorem isPhoneChar_of_isSpread {c : Char} (h : isSpread c = true) : isPhoneChar c = true := by
  simp [isPhoneChar, h]

theorem EmailWord.chars {w : List Char} (h : EmailWord w) : ∀ c ∈ w, isEmailChar c = true := by
  obtain ⟨-, hlocal, -, hchars, -, halpha⟩ := h
  have hemail : ∀ {c : Char}, isLocal c = true → isEmailChar c = true := fun hc => by
    simp [isEmailChar, hc]
  intro c hc
  simp only [List.mem_append, List.mem_cons] at hc
  rcases hc with hc | rfl | hc | rfl | hc
  · exact hemail (hlocal c hc)
  · decide
  · exact hemail (isLocal_of_isDomain (hchars c hc))
  · decide
  · exact hemail (isLocal_of_isAlpha (halpha c hc))

theorem EmailWord.at_mem {w : List Char} (h : EmailWord w) : '@' ∈ w := by
  obtain ⟨-, -, -, -, -, -⟩ := h
  simp

/-- An address ends with a letter. -/
theorem EmailWord.last {w : List Char} (h : EmailWord w) : ∃ v c, w = v ++ [c] ∧
    c.isAlpha = true := by
  obtain @⟨user, domain, top, -, -, -, -, htop, halpha⟩ := h
  rcases List.eq_nil_or_concat' top with rfl | ⟨top, c, rfl⟩
  · cases htop
  · exact ⟨user ++ '@' :: (domain ++ '.' :: top), c, by simp, halpha c (by simp)⟩

/-- An address can start one character earlier. -/
theorem EmailWord.cons {w : List Char} (h : EmailWord w) {c : Char} (hc : isLocal c = true) :
    EmailWord (c :: w) := by
  obtain ⟨-, hlocal, hdomain, hchars, htop, halpha⟩ := h
  refine .mk (List.cons_ne_nil c _) (fun x hx => ?_) hdomain hchars htop halpha
  rcases List.mem_cons.mp hx with rfl | hx
  · exact hc
  · exact hlocal x hx

theorem PhoneBody.chars {w : List Char} (h : PhoneBody w) : ∀ c ∈ w, isSpread c = true := by
  obtain ⟨hx, hy, -, -, hspread⟩ := h
  intro c hc
  simp only [List.mem_append, List.mem_cons, List.not_mem_nil, or_false] at hc
  rcases hc with rfl | hc | rfl
  · exact isSpread_of_isDecimal hx
  · exact hspread c hc
  · exact isSpread_of_isDecimal hy

theorem PhoneBody.length {w : List Char} (h : PhoneBody w) : 9 ≤ w.length ∧ w.length ≤ 16 := by
  obtain ⟨-, -, hmin, hmax, -⟩ := h
  simp only [List.length_cons, List.length_append, List.length_nil]
  omega

theorem PhoneBody.head {w : List Char} (h : PhoneBody w) :
    ∃ x v, w = x :: v ∧ isDecimal x = true := by
  obtain ⟨hx, -, -, -, -⟩ := h
  exact ⟨_, _, rfl, hx⟩

theorem PhoneBody.last {w : List Char} (h : PhoneBody w) :
    ∃ v y, w = v ++ [y] ∧ isDecimal y = true := by
  obtain @⟨x, y, middle, -, hy, -, -, -⟩ := h
  exact ⟨x :: middle, y, rfl, hy⟩

theorem PhoneWord.chars {w : List Char} (h : PhoneWord w) : ∀ c ∈ w, isPhoneChar c = true := by
  rcases h with hbody | ⟨v, rfl, hbody⟩
  · exact fun c hc => isPhoneChar_of_isSpread (hbody.chars c hc)
  · intro c hc
    rcases List.mem_cons.mp hc with rfl | hc
    · decide
    · exact isPhoneChar_of_isSpread (hbody.chars c hc)

/-- A number ends with a digit. -/
theorem PhoneWord.last {w : List Char} (h : PhoneWord w) :
    ∃ v y, w = v ++ [y] ∧ isDecimal y = true := by
  rcases h with hbody | ⟨v, rfl, hbody⟩
  · exact hbody.last
  · obtain ⟨u, y, rfl, hy⟩ := hbody.last
    exact ⟨'+' :: u, y, rfl, hy⟩

theorem emailRe_consuming : emailRe.Consuming := by
  rintro b - a hw rfl
  cases (emailRe_spells.mp hw).at_mem

theorem phoneRe_consuming : phoneRe.Consuming := by
  rintro b w a hw rfl
  obtain ⟨v, y, hnil, -⟩ := (phoneRe_spells.mp hw).2.2.last
  simp at hnil

/-! ## Nothing is left -/

/-- The brackets around a placeholder stand in no match. -/
theorem redactedEmail_brackets :
    (∃ x m, redactedEmail = x :: m ∧ isEmailChar x = false) ∧
      ∃ m x, redactedEmail = m ++ [x] ∧ isEmailChar x = false :=
  ⟨⟨'[', "REDACTED_EMAIL]".toList, by decide, by decide⟩,
    ⟨"[REDACTED_EMAIL".toList, ']', by decide, by decide⟩⟩

theorem redactedPhone_brackets {q : Char → Bool} (hopen : q '[' = false) (hclose : q ']' = false) :
    (∃ x m, redactedPhone = x :: m ∧ q x = false) ∧
      ∃ m x, redactedPhone = m ++ [x] ∧ q x = false :=
  ⟨⟨'[', "REDACTED_PHONE]".toList, by decide, hopen⟩,
    ⟨"[REDACTED_PHONE".toList, ']', by decide, hclose⟩⟩

theorem email_word {repl : List Char} (hrepl : '@' ∉ repl) {b w a : List Char}
    (h : emailRe.Spells b w a) : (∀ c ∈ w, isEmailChar c = true) ∧ ∃ c ∈ w, c ∉ repl :=
  have hword := emailRe_spells.mp h
  ⟨hword.chars, '@', hword.at_mem, hrepl⟩

theorem email_absent_after_email (text : List Char) :
    emailRe.Absent (emailRe.sub redactedEmail text) :=
  emailRe_plain.absent_sub emailRe_consuming redactedEmail_brackets.1 redactedEmail_brackets.2
    (fun _ _ _ => email_word (by decide)) text

theorem email_absent_after_phone {text : List Char} (h : emailRe.Absent text) :
    emailRe.Absent (phoneRe.sub redactedPhone text) :=
  have hbrackets := redactedPhone_brackets (q := isEmailChar) (by decide) (by decide)
  emailRe_plain.absent_sub_of_absent phoneRe_consuming hbrackets.1 hbrackets.2
    (fun _ _ _ => email_word (by decide)) h

/-- Behind a kept digit no match starts, so what follows it there is what follows it in the
    text. -/
theorem noDecimal_after {b m : List Char} {y : Char} {ps₁ ps₂ : List (Piece Char)}
    (hcut : phoneRe.Cut b (ps₁ ++ ((m ++ [y]).map .kept ++ ps₂))) (hy : isDecimal y = true)
    (hafter : noDecimal (replaced redactedPhone ps₂).head? = true) :
    noDecimal (source ps₂).head? = true := by
  cases ps₂ with
  | nil => rfl
  | cons p ps₂ =>
    cases p with
    | kept c => exact hafter
    | hit h =>
      rw [← List.append_assoc] at hcut
      have hbefore := (phoneRe_spells.mp hcut.spells.2).1
      rw [source_append, source_map_kept, List.reverse_append, List.reverse_append] at hbefore
      simp [noDecimal, hy] at hbefore

theorem kept_not_phone {w : List Char} {ps₁ ps₂ : List (Piece Char)}
    (hcut : phoneRe.Cut [] (ps₁ ++ (w.map .kept ++ ps₂)))
    (hbefore : noDecimal (source ps₁).reverse.head? = true)
    (hafter : noDecimal (source ps₂).head? = true) : ¬ PhoneWord w := by
  intro hw
  obtain ⟨m, y, rfl, -⟩ := hw.last
  refine hcut.not_spells (by simp) (phoneRe_spells.mpr ⟨?_, hafter, hw⟩)
  rw [List.append_nil]
  exact hbefore

theorem phone_absent_after_phone (text : List Char) :
    phoneRe.Absent (phoneRe.sub redactedPhone text) := by
  intro u w v hsplit hspells
  obtain ⟨hu, hv, hw⟩ := phoneRe_spells.mp hspells
  obtain ⟨m, y, rfl, hy⟩ := hw.last
  have hletter : ∃ c ∈ m ++ [y], c ∉ redactedPhone := by
    refine ⟨y, by simp, fun hmem => ?_⟩
    have hnone : ∀ c ∈ redactedPhone, isDecimal c = false := forall_mem_of_all (by decide)
    rw [hnone y hmem] at hy
    cases hy
  rw [List.append_assoc] at hsplit
  have hbrackets := redactedPhone_brackets (q := isPhoneChar) (by decide) (by decide)
  obtain ⟨ps₁, ps₂, hps, rfl, rfl⟩ :=
    replaced_word hbrackets.1 hbrackets.2 hw.chars hletter hsplit
  have hcut := cut_scan phoneRe_consuming text
  rw [hps] at hcut
  have hafter := noDecimal_after hcut hy hv
  rcases List.eq_nil_or_concat' ps₁ with rfl | ⟨ps₁, p, rfl⟩
  · exact kept_not_phone hcut rfl hafter hw
  · cases p with
    | kept c =>
      have hbefore : noDecimal (source (ps₁ ++ [.kept c])).reverse.head? = true := by
        simpa [Piece.source, Piece.replaced] using hu
      exact kept_not_phone hcut hbefore hafter hw
    | hit h =>
      -- the number starts where a match ends, so it has a sign, and a match starts behind it
      rw [List.append_assoc] at hcut
      have hnext := (phoneRe_spells.mp hcut.spells.2).2.1
      rcases hw with hbody | ⟨v, hsign, hbody⟩
      · obtain ⟨x, v, hx, hdecimal⟩ := hbody.head
        change noDecimal (source ((m ++ [y]).map .kept ++ ps₂)).head? = true at hnext
        rw [source_append, source_map_kept, hx] at hnext
        simp [noDecimal, hdecimal] at hnext
      · rw [hsign, List.map_cons] at hcut
        have hcut' : phoneRe.Cut [] ((ps₁ ++ [.hit h] ++ [.kept '+']) ++ (v.map .kept ++ ps₂)) := by
          simpa using hcut
        exact kept_not_phone hcut' (by simp [Piece.source]; decide) hafter (Or.inl hbody)

/-- Nothing is left to redact. -/
theorem redact_clean (text : String) :
    emailRe.Absent (redact text).toList ∧ phoneRe.Absent (redact text).toList ∧
      redact (redact text) = redact text := by
  have hemail : emailRe.Absent (redact text).toList := by
    rw [redact, String.toList_ofList]
    exact email_absent_after_phone (email_absent_after_email text.toList)
  have hphone : phoneRe.Absent (redact text).toList := by
    rw [redact, String.toList_ofList]
    exact phone_absent_after_phone _
  refine ⟨hemail, hphone, ?_⟩
  rw [redact, sub_of_absent emailRe_consuming hemail, sub_of_absent phoneRe_consuming hphone,
    String.ofList_toList]

end LinkedOut
