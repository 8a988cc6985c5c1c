/-
  Which blocks of digits `_redact` removes.

  The comment over `_PHONE_RE` says 8 to 15 digits; the pattern asks for two digits with
  seven to fourteen characters between them, so for 9 to 16. A delimited block of 8 digits
  stays, unless it is part of an e-mail address (`phone_block_iff`).

  The letters of the block carry a mark through both substitutions; a digit of the block
  survives when the output has a marked letter.
-/
import LinkedOut.Logging.Redaction

namespace LinkedOut

open Regex

/-! ## Letters with a mark -/

/-- `_redact` of letters that carry a mark; a placeholder carries none. -/
def redactMarked (text : List (Char × Bool)) : List (Char × Bool) :=
  let text := (emailRe.comap Prod.fst).sub (redactedEmail.map (·, false)) text
  (phoneRe.comap Prod.fst).sub (redactedPhone.map (·, false)) text

/-- Without the marks it is `_redact`. -/
theorem map_redactMarked (text : List (Char × Bool)) :
    (redactMarked text).map Prod.fst = (redact (String.ofList (text.map Prod.fst))).toList := by
  have hunmark : ∀ l : List Char, (l.map fun c => (c, false)).map Prod.fst = l := by
    intro l
    rw [List.map_map]
    exact List.map_id l
  rw [redactMarked, redact, map_sub, map_sub, hunmark, hunmark, String.toList_ofList,
    String.toList_ofList]

/-- A text with one part marked. -/
def marking (before block after : List Char) : List (Char × Bool) :=
  before.map (·, false) ++ (block.map (·, true) ++ after.map (·, false))

/-- A letter of the block is still there once the text around it is redacted. -/
def Survives (before block after : List Char) : Prop :=
  ∃ c, (c, true) ∈ redactMarked (marking before block after)

/-- The block is part of a match that the scan for e-mail addresses finds. -/
def InEmail (before block after : List Char) : Prop :=
  ∃ ps₁ u v ps₂, emailRe.scan [] 0 (before ++ (block ++ after)) =
    ps₁ ++ .hit (u ++ (block ++ v)) :: ps₂ ∧ before = source ps₁ ++ u

/-- Neither a digit, a hyphen, a plus sign nor whitespace. -/
def isDelimiter (c : Char) : Bool := !isDecimal c && c != '-' && c != '+' && !isSpace c

/-- Between the texts `left` and `right`: a sign or none, and 8 to 15 digits. -/
structure DelimitedBlock (left sign block right : List Char) : Prop where
  sign : sign = [] ∨ sign = ['+']
  digits : ∀ c ∈ block, c.isDigit = true
  length : 8 ≤ block.length ∧ block.length ≤ 15
  before : ∀ c, left.getLast? = some c → isDelimiter c = true
  after : ∀ c, right.head? = some c → isDelimiter c = true

theorem isDelimiter_iff {c : Char} : isDelimiter c = true ↔ isPhoneChar c = false := by
  simp [isDelimiter, isPhoneChar, isSpread, and_assoc, and_comm]

theorem isDecimal_of_isDigit {c : Char} (h : c.isDigit = true) : isDecimal c = true := by
  have hrange := digit_range h
  simp [isDecimal, inRanges, decimalRanges, hrange]

theorem not_isAlpha_of_isDigit {c : Char} (h : c.isDigit = true) : c.isAlpha = false := by
  have hrange := digit_range h
  rw [Bool.eq_false_iff]
  intro halpha
  have hletter := (isAlpha_iff.mp halpha).imp upper_range lower_range
  omega

/-! ## Unmarked letters stay unmarked -/

def Unmarked (text : List (Char × Bool)) : Prop := ∀ x ∈ text, x.2 = false

theorem unmarked_append {s t : List (Char × Bool)} :
    Unmarked (s ++ t) ↔ Unmarked s ∧ Unmarked t := List.forall_mem_append

theorem unmarked_map (l : List Char) : Unmarked (l.map (·, false)) := by
  intro x hx
  obtain ⟨c, -, rfl⟩ := List.mem_map.mp hx
  rfl

theorem unmarked_replaced (l : List Char) {ps : List (Piece (Char × Bool))}
    (h : Unmarked (source ps)) : Unmarked (replaced (l.map (·, false)) ps) := by
  induction ps with
  | nil => exact fun x hx => by cases hx
  | cons p ps ih =>
    rw [source_cons, unmarked_append] at h
    rw [replaced_cons, unmarked_append]
    refine ⟨?_, ih h.2⟩
    cases p with
    | kept x => exact h.1
    | hit w => exact unmarked_map l

/-- Only a match took the marked letters. -/
theorem unmarked_of_hit {l before block after : List Char} {w : List (Char × Bool)}
    {ps₁ ps₂ : List (Piece (Char × Bool))}
    (hsource : source (ps₁ ++ .hit w :: ps₂) = marking before block after)
    (hstart : (source ps₁).length ≤ before.length)
    (hstop : before.length + block.length ≤ (source ps₁).length + w.length) :
    Unmarked (replaced (l.map (·, false)) (ps₁ ++ .hit w :: ps₂)) := by
  have hparts : source ps₁ ++ (w ++ source ps₂) =
      before.map (·, false) ++ (block.map (·, true) ++ after.map (·, false)) := by
    rw [source_append, source_cons] at hsource
    exact hsource
  have h₁ : Unmarked (source ps₁) := by
    obtain ⟨u, hu⟩ : source ps₁ <+: before.map (·, false) :=
      List.prefix_of_prefix_length_le ⟨_, hparts⟩ (List.prefix_append _ _) (by simpa using hstart)
    have hbefore := unmarked_map before
    rw [← hu, unmarked_append] at hbefore
    exact hbefore.1
  have h₂ : Unmarked (source ps₂) := by
    have hlen := congrArg List.length hparts
    simp only [List.length_append, List.length_map] at hlen
    have hsuffix : source ps₂ <:+ source ps₁ ++ (w ++ source ps₂) := ⟨source ps₁ ++ w, by simp⟩
    have hsuffix' : after.map (·, false) <:+ source ps₁ ++ (w ++ source ps₂) :=
      ⟨before.map (·, false) ++ block.map (·, true), by rw [hparts]; simp⟩
    obtain ⟨u, hu⟩ := List.suffix_of_suffix_length_le hsuffix hsuffix' (by
      simp only [List.length_map]
      omega)
    have hafter := unmarked_map after
    rw [← hu, unmarked_append] at hafter
    exact hafter.2
  rw [replaced_append, replaced_cons, unmarked_append, unmarked_append]
  exact ⟨unmarked_replaced l h₁, unmarked_map l, unmarked_replaced l h₂⟩

theorem not_survives_of_unmarked {before block after : List Char}
    (h : Unmarked (redactMarked (marking before block after))) :
    ¬ Survives before block after := by
  rintro ⟨c, hc⟩
  exact Bool.noConfusion (h _ hc)

/-! ## The phone pattern at a block -/

theorem email_comap_spells {b w a : List (Char × Bool)} :
    (emailRe.comap Prod.fst).Spells b w a ↔ EmailWord (w.map Prod.fst) := by
  rw [spells_comap, emailRe_spells]

theorem phone_comap_spells {b w a : List (Char × Bool)} :
    (phoneRe.comap Prod.fst).Spells b w a ↔ noDecimal (b.map Prod.fst).head? = true ∧
      noDecimal (a.map Prod.fst).head? = true ∧ PhoneWord (w.map Prod.fst) := by
  rw [spells_comap, phoneRe_spells]

theorem email_comap_consuming : (emailRe.comap (Prod.fst : Char × Bool → Char)).Consuming := by
  rintro b - a hw rfl
  cases (email_comap_spells.mp hw).at_mem

theorem phone_comap_consuming : (phoneRe.comap (Prod.fst : Char × Bool → Char)).Consuming := by
  rintro b - a hw rfl
  obtain ⟨v, y, hnil, -⟩ := (phone_comap_spells.mp hw).2.2.last
  simp at hnil

theorem noDecimal_of_isDelimiter {c : Option Char} (h : ∀ x, c = some x → isDelimiter x = true) :
    noDecimal c = true := by
  cases c with
  | none => rfl
  | some x =>
    have hx := h x rfl
    simp only [isDelimiter, Bool.and_eq_true] at hx
    exact hx.1.1.1

/-- The text that the second substitution is given, around a block that is still there. -/
structure BlockInText (u sign block v : List (Char × Bool)) : Prop where
  unmarked_before : Unmarked (u ++ sign)
  unmarked_after : Unmarked v
  sign : sign.map Prod.fst = [] ∨ sign.map Prod.fst = ['+']
  digits : ∀ x ∈ block, x.1.isDigit = true
  marked : ∀ x ∈ block, x.2 = true
  length : 8 ≤ block.length ∧ block.length ≤ 15
  before : ∀ x, u.getLast? = some x → isDelimiter x.1 = true
  after : ∀ x, v.head? = some x → isDelimiter x.1 = true

section

variable {u sign block v : List (Char × Bool)} {qs : List (Piece (Char × Bool))}

/-- A number that takes the last digit of the block stops there. -/
theorem BlockInText.stops (h : BlockInText u sign block v) {qs₁ qs₂ : List (Piece (Char × Bool))}
    {w₁ w₂ : List (Char × Bool)}
    (hcut : (phoneRe.comap Prod.fst).Cut [] (qs₁ ++ .hit (w₁ ++ w₂) :: qs₂))
    (hrest : block ++ v = w₂ ++ source qs₂) : w₂ = block ∧ source qs₂ = v := by
  obtain ⟨-, hafter, hword⟩ := phone_comap_spells.mp hcut.spells.2
  rcases List.append_eq_append_iff.mp hrest with ⟨m, hw, hv⟩ | ⟨m, hb, hsource⟩
  · cases m with
    | nil =>
      rw [List.append_nil] at hw
      exact ⟨hw, hv.symm⟩
    | cons x m =>
      have hdelim := isDelimiter_iff.mp (h.after x (by rw [hv]; rfl))
      have hchar := hword.chars x.1 (List.mem_map_of_mem (by rw [hw]; simp))
      rw [hdelim] at hchar
      cases hchar
  · cases m with
    | nil =>
      rw [List.append_nil] at hb
      exact ⟨hb.symm, hsource⟩
    | cons x m =>
      have hdigit := isDecimal_of_isDigit (h.digits x (by rw [hb]; simp))
      rw [hsource] at hafter
      simp [noDecimal, hdigit] at hafter

theorem BlockInText.ne_nil (h : BlockInText u sign block v) : block ≠ [] := by
  intro hnil
  have hlen := h.length.1
  rw [hnil] at hlen
  cases hlen

/-- The block is the end of a match, or its first digit is kept. -/
theorem BlockInText.hit_or_kept (h : BlockInText u sign block v)
    (hcut : (phoneRe.comap Prod.fst).Cut [] qs)
    (hsource : source qs = (u ++ sign) ++ (block ++ v)) :
    (∃ qs₁ w qs₂, qs = qs₁ ++ .hit (w ++ block) :: qs₂ ∧ u ++ sign = source qs₁ ++ w ∧
        source qs₂ = v) ∨
      ∃ qs₁ x qs₂, qs = qs₁ ++ .kept x :: qs₂ ∧ x ∈ block ∧ source qs₁ = u ++ sign ∧
        x :: source qs₂ = block ++ v := by
  rcases source_split hsource with
    ⟨qs₁, qs₂, hqs, hbefore, hrest⟩ | ⟨qs₁, w₁, w₂, qs₂, hqs, -, -, hbefore, hrest⟩
  · match qs₂, hqs, hrest with
    | [], _, hrest => exact absurd (List.append_eq_nil_iff.mp hrest.symm).1 h.ne_nil
    | .hit w :: qs₂, hqs, hrest =>
      rw [hqs] at hcut
      have hcut' : (phoneRe.comap Prod.fst).Cut [] (qs₁ ++ .hit ([] ++ w) :: qs₂) := hcut
      obtain ⟨rfl, hv⟩ := h.stops hcut' hrest.symm
      exact Or.inl ⟨qs₁, [], qs₂, hqs, by rw [hbefore, List.append_nil], hv⟩
    | .kept x :: qs₂, hqs, hrest =>
      obtain ⟨y, m, hy⟩ := List.exists_cons_of_ne_nil h.ne_nil
      have hx : x = y := by
        rw [hy] at hrest
        exact (List.cons.inj hrest).1
      exact Or.inr ⟨qs₁, x, qs₂, hqs, by rw [hx, hy]; exact List.mem_cons_self, hbefore, hrest⟩
  · rw [hqs] at hcut
    obtain ⟨rfl, hv⟩ := h.stops hcut hrest
    exact Or.inl ⟨qs₁, w₁, qs₂, hqs, hbefore, hv⟩

theorem BlockInText.noDecimal_before (h : BlockInText u sign block v) :
    noDecimal ((u ++ sign).reverse.map Prod.fst).head? = true := by
  rcases h.sign with hsign | hsign
  · rw [List.map_eq_nil_iff.mp hsign, List.append_nil, List.head?_map, List.head?_reverse]
    refine noDecimal_of_isDelimiter fun c hc => ?_
    obtain ⟨x, hx, rfl⟩ := Option.map_eq_some_iff.mp hc
    exact h.before x hx
  · rw [List.reverse_append, List.map_append, List.map_reverse, hsign]
    change noDecimal (some '+') = true
    decide

theorem BlockInText.noDecimal_after (h : BlockInText u sign block v) :
    noDecimal (v.map Prod.fst).head? = true := by
  rw [List.head?_map]
  refine noDecimal_of_isDelimiter fun c hc => ?_
  obtain ⟨x, hx, rfl⟩ := Option.map_eq_some_iff.mp hc
  exact h.after x hx

/-- Nine digits and more are a number. -/
theorem BlockInText.body (h : BlockInText u sign block v) (hlen : 9 ≤ block.length) :
    PhoneBody (block.map Prod.fst) := by
  have hdecimal : ∀ c ∈ block.map Prod.fst, isDecimal c = true := by
    intro c hc
    obtain ⟨x, hx, rfl⟩ := List.mem_map.mp hc
    exact isDecimal_of_isDigit (h.digits x hx)
  have hmax := h.length.2
  have hlength : (block.map Prod.fst).length = block.length := List.length_map _
  generalize block.map Prod.fst = w at hdecimal hlength
  match w with
  | [] => simp at hlength; omega
  | x :: w =>
    rcases List.eq_nil_or_concat' w with rfl | ⟨m, y, rfl⟩
    · simp at hlength
      omega
    · simp only [List.length_cons, List.length_append, List.length_nil] at hlength
      exact .mk (hdecimal x (by simp)) (hdecimal y (by simp)) (by omega) (by omega)
        fun c hc => isSpread_of_isDecimal (hdecimal c (by simp [hc]))

/-- Eight digits are none, with what a number may have before them. -/
theorem BlockInText.not_number (h : BlockInText u sign block v) (hlen : block.length = 8)
    {qs₁ : List (Piece (Char × Bool))} {w : List (Char × Bool)}
    (hbefore : u ++ sign = source qs₁ ++ w) : ¬ PhoneWord ((w ++ block).map Prod.fst) := by
  intro hword
  have hsuffix : ∃ m, sign = m ++ w := by
    rcases List.append_eq_append_iff.mp hbefore with ⟨m, -, hsign⟩ | ⟨m, hu, hw⟩
    · exact ⟨m, hsign⟩
    · rcases List.eq_nil_or_concat' m with rfl | ⟨m, x, rfl⟩
      · exact ⟨[], hw.symm⟩
      · have hdelim := isDelimiter_iff.mp (h.before x (by rw [hu]; simp))
        have hchar := hword.chars x.1 (List.mem_map_of_mem (by rw [hw]; simp))
        rw [hdelim] at hchar
        cases hchar
  have hshort : (w.map Prod.fst) = [] ∨ (w.map Prod.fst) = ['+'] := by
    obtain ⟨m, rfl⟩ := hsuffix
    have hsign := h.sign
    rw [List.map_append] at hsign
    rcases hsign with hnil | hplus
    · exact Or.inl (List.append_eq_nil_iff.mp hnil).2
    · rcases List.append_eq_singleton_iff.mp hplus with ⟨-, hw⟩ | ⟨-, hw⟩
      · exact Or.inr hw
      · exact Or.inl hw
  have hlength : (block.map Prod.fst).length = 8 := by rw [List.length_map, hlen]
  rw [List.map_append] at hword
  rcases hshort with hw | hw
  · rw [hw, List.nil_append] at hword
    rcases hword with hbody | ⟨m, hm, hbody⟩
    · have := hbody.length
      omega
    · have := hbody.length
      rw [hm, List.length_cons] at hlength
      omega
  · rw [hw, List.singleton_append] at hword
    rcases hword with hbody | ⟨m, hm, hbody⟩
    · obtain ⟨x, m, hx, hdecimal⟩ := hbody.head
      obtain ⟨rfl, -⟩ := List.cons.inj hx
      exact absurd hdecimal (by decide)
    · obtain ⟨-, rfl⟩ := List.cons.inj hm
      have := hbody.length
      omega

/-- Nine digits and more are replaced. -/
theorem BlockInText.removed (h : BlockInText u sign block v) (hlen : 9 ≤ block.length) :
    Unmarked ((phoneRe.comap Prod.fst).sub (redactedPhone.map (·, false))
      ((u ++ sign) ++ (block ++ v))) := by
  have hcut := cut_scan phone_comap_consuming ((u ++ sign) ++ (block ++ v))
  have hsource := source_scan phone_comap_consuming ((u ++ sign) ++ (block ++ v))
  rw [sub]
  rcases h.hit_or_kept hcut hsource with
    ⟨qs₁, w, qs₂, hqs, hbefore, hafter⟩ | ⟨qs₁, x, qs₂, hqs, -, hbefore, hrest⟩
  · have hunmarked := h.unmarked_before
    rw [hbefore, unmarked_append] at hunmarked
    rw [hqs, replaced_append, replaced_cons, unmarked_append, unmarked_append]
    exact ⟨unmarked_replaced _ hunmarked.1, unmarked_map _,
      unmarked_replaced _ (hafter.symm ▸ h.unmarked_after)⟩
  · rw [hqs] at hcut
    refine absurd (phone_comap_spells.mpr ⟨?_, h.noDecimal_after, Or.inl (h.body hlen)⟩)
      (hcut.suffix.1 block v hrest)
    rw [hbefore, List.append_nil]
    exact h.noDecimal_before

/-- Eight digits are not. -/
theorem BlockInText.left_in (h : BlockInText u sign block v) (hlen : block.length = 8) :
    ∃ c, (c, true) ∈ (phoneRe.comap Prod.fst).sub (redactedPhone.map (·, false))
      ((u ++ sign) ++ (block ++ v)) := by
  have hcut := cut_scan phone_comap_consuming ((u ++ sign) ++ (block ++ v))
  have hsource := source_scan phone_comap_consuming ((u ++ sign) ++ (block ++ v))
  rcases h.hit_or_kept hcut hsource with
    ⟨qs₁, w, qs₂, hqs, hbefore, -⟩ | ⟨qs₁, x, qs₂, hqs, hx, -, -⟩
  · rw [hqs] at hcut
    exact absurd (phone_comap_spells.mp hcut.spells.2).2.2 (h.not_number hlen hbefore)
  · refine ⟨x.1, ?_⟩
    have hmarked : (x.1, true) = x := by rw [← h.marked x hx]
    rw [hmarked, sub, hqs, replaced_append, replaced_cons]
    simp [Piece.replaced]

end

/-! ## The e-mail pattern at a block -/

/-- A kept letter stays, and at a match the text ends with the bracket of the placeholder. -/
theorem getLast?_replaced {ps : List (Piece (Char × Bool))}
    (h : ∀ x, (source ps).getLast? = some x → isDelimiter x.1 = true) :
    ∀ x, (replaced (redactedEmail.map (·, false)) ps).getLast? = some x →
      isDelimiter x.1 = true := by
  rcases List.eq_nil_or_concat' ps with rfl | ⟨ps, p, rfl⟩
  · intro x hx
    cases hx
  · intro x hx
    cases p with
    | kept y => exact h x (by simpa [Piece.source, Piece.replaced] using hx)
    | hit w =>
      obtain rfl : x = (']', false) := by
        have hlast : (redactedEmail.map fun c => (c, false)).getLast? = some (']', false) := by
          decide
        rw [replaced_append, replaced_cons, replaced_nil, List.append_nil,
          List.getLast?_append, Piece.replaced, hlast] at hx
        exact (Option.some.inj hx).symm
      decide

theorem head?_replaced {ps : List (Piece (Char × Bool))}
    (h : ∀ x, (source ps).head? = some x → isDelimiter x.1 = true) :
    ∀ x, (replaced (redactedEmail.map (·, false)) ps).head? = some x →
      isDelimiter x.1 = true := by
  intro x hx
  cases ps with
  | nil => cases hx
  | cons p ps =>
    cases p with
    | kept y => exact h x hx
    | hit w =>
      obtain rfl : x = ('[', false) := by
        have hhead : (redactedEmail.map fun c => (c, false)).head? = some ('[', false) := by
          decide
        rw [replaced_cons, List.head?_append, Piece.replaced, hhead] at hx
        exact (Option.some.inj hx).symm
      decide

/-- An address ends with a letter. -/
theorem email_comap_last {b w a : List (Char × Bool)}
    (h : (emailRe.comap Prod.fst).Spells b w a) :
    ∃ m x, w = m ++ [x] ∧ x.1.isAlpha = true := by
  obtain ⟨m, c, hlast, halpha⟩ := (email_comap_spells.mp h).last
  rcases List.eq_nil_or_concat' w with rfl | ⟨w, x, rfl⟩
  · simp at hlast
  · rw [List.map_append] at hlast
    have hc : x.1 = c := List.singleton_inj.mp (List.append_inj' hlast rfl).2
    exact ⟨w, x, rfl, hc ▸ halpha⟩

/-- No address ends with a sign, so the sign before a kept block is kept. -/
theorem sign_kept {b left sign : List (Char × Bool)} {ps₁ ps₂ : List (Piece (Char × Bool))}
    (hcut : (emailRe.comap Prod.fst).Cut b (ps₁ ++ ps₂))
    (hsign : sign.map Prod.fst = [] ∨ sign.map Prod.fst = ['+']) (h : source ps₁ = left ++ sign) :
    ∃ ps₃, ps₁ = ps₃ ++ sign.map .kept ∧ source ps₃ = left := by
  rcases hsign with hnil | hplus
  · rw [List.map_eq_nil_iff.mp hnil, List.append_nil] at h
    exact ⟨ps₁, by rw [List.map_eq_nil_iff.mp hnil]; simp, h⟩
  · obtain ⟨s, rfl, hs⟩ := List.map_eq_singleton_iff.mp hplus
    rcases List.eq_nil_or_concat' ps₁ with rfl | ⟨ps₃, p, rfl⟩
    · simp at h
    · cases p with
      | kept x =>
        rw [source_append] at h
        obtain ⟨hleft, hx⟩ := List.append_inj' h rfl
        obtain rfl : x = s := List.singleton_inj.mp hx
        exact ⟨ps₃, rfl, hleft⟩
      | hit w =>
        rw [List.append_assoc] at hcut
        obtain ⟨w, x, rfl, halpha⟩ := email_comap_last hcut.spells.2
        have hx : x = s := by
          rw [source_append, source_cons, source_nil, List.append_nil, Piece.source,
            ← List.append_assoc] at h
          exact List.singleton_inj.mp (List.append_inj' h rfl).2
        rw [hx, hs] at halpha
        exact absurd halpha (by decide)

/-! ## Both substitutions -/

theorem map_fst_marking (before block after : List Char) :
    (marking before block after).map Prod.fst = before ++ (block ++ after) := by
  simp [marking, Function.comp_def]

/-- The pieces of the marked text are those of the text. -/
theorem scan_marking (before block after : List Char) :
    emailRe.scan [] 0 (before ++ (block ++ after)) =
      ((emailRe.comap Prod.fst).scan [] 0 (marking before block after)).map
        (Piece.map Prod.fst) := by
  rw [scan_comap, map_fst_marking]
  rfl

section

variable {left sign block right : List Char}

/-- A block that the first substitution has kept is delimited in what it gives. -/
theorem DelimitedBlock.kept (h : DelimitedBlock left sign block right)
    {ps₁ ps₂ : List (Piece (Char × Bool))} (hbefore : source ps₁ = left.map (·, false))
    (hafter : source ps₂ = right.map (·, false)) :
    BlockInText (replaced (redactedEmail.map (·, false)) ps₁) (sign.map (·, false))
      (block.map (·, true)) (replaced (redactedEmail.map (·, false)) ps₂) where
  unmarked_before := unmarked_append.mpr
    ⟨unmarked_replaced _ (hbefore ▸ unmarked_map left), unmarked_map sign⟩
  unmarked_after := unmarked_replaced _ (hafter ▸ unmarked_map right)
  sign := by simpa [Function.comp_def] using h.sign
  digits := by
    intro x hx
    obtain ⟨c, hc, rfl⟩ := List.mem_map.mp hx
    exact h.digits c hc
  marked := by
    intro x hx
    obtain ⟨c, -, rfl⟩ := List.mem_map.mp hx
    rfl
  length := by
    rw [List.length_map]
    exact h.length
  before := by
    refine getLast?_replaced fun x hx => ?_
    rw [hbefore, List.getLast?_map] at hx
    obtain ⟨c, hc, rfl⟩ := Option.map_eq_some_iff.mp hx
    exact h.before c hc
  after := by
    refine head?_replaced fun x hx => ?_
    rw [hafter, List.head?_map] at hx
    obtain ⟨c, hc, rfl⟩ := Option.map_eq_some_iff.mp hx
    exact h.after c hc

/-- The first substitution takes the whole block or keeps it. -/
theorem DelimitedBlock.hit_or_kept (h : DelimitedBlock left sign block right)
    {ps : List (Piece (Char × Bool))} (hcut : (emailRe.comap Prod.fst).Cut [] ps)
    (hsource : source ps = marking (left ++ sign) block right) :
    (∃ ps₁ u v ps₂, ps = ps₁ ++ .hit (u ++ (block.map (·, true) ++ v)) :: ps₂ ∧
        (left ++ sign).map (·, false) = source ps₁ ++ u) ∨
      ∃ ps₁ ps₂, ps = ps₁ ++ ((block.map (·, true)).map .kept ++ ps₂) ∧
        source ps₁ = (left ++ sign).map (·, false) ∧ source ps₂ = right.map (·, false) := by
  have hdigit : ∀ x ∈ block.map fun c => (c, true), x.1.isDigit = true := by
    intro x hx
    obtain ⟨c, hc, rfl⟩ := List.mem_map.mp hx
    exact h.digits c hc
  have hne : (block.map fun c => (c, true)) ≠ [] := by
    intro hnil
    have hlen := h.length.1
    rw [List.map_eq_nil_iff.mp hnil] at hlen
    cases hlen
  refine hcut.word hne hsource (fun b w a hw => ?_) (fun x hx b w a hw => ?_)
  · obtain ⟨m, y, rfl, halpha⟩ := email_comap_last hw
    refine ⟨m, y, rfl, fun hy => ?_⟩
    rw [not_isAlpha_of_isDigit (hdigit y hy)] at halpha
    cases halpha
  · refine email_comap_spells.mpr ((email_comap_spells.mp hw).cons ?_)
    simp [isLocal, Char.isAlphanum, hdigit x hx]

/-- The first substitution takes the whole block, or it leaves it delimited. -/
theorem email_pass (h : DelimitedBlock left sign block right) :
    InEmail (left ++ sign) block right ∨
      ∃ u v, (emailRe.comap Prod.fst).sub (redactedEmail.map (·, false))
          (marking (left ++ sign) block right) =
          (u ++ sign.map (·, false)) ++ (block.map (·, true) ++ v) ∧
        BlockInText u (sign.map (·, false)) (block.map (·, true)) v := by
  have hcut := cut_scan email_comap_consuming (marking (left ++ sign) block right)
  have hsource := source_scan email_comap_consuming (marking (left ++ sign) block right)
  rcases h.hit_or_kept hcut hsource with
    ⟨ps₁, u, v, ps₂, hps, hbefore⟩ | ⟨ps₁, ps₂, hps, hbefore, hafter⟩
  · refine Or.inl ⟨ps₁.map (Piece.map Prod.fst), u.map Prod.fst, v.map Prod.fst,
      ps₂.map (Piece.map Prod.fst), ?_, ?_⟩
    · rw [scan_marking, hps]
      simp [Piece.map, Function.comp_def]
    · have hmap : ((left ++ sign).map fun c => (c, false)).map Prod.fst =
          (source ps₁).map Prod.fst ++ u.map Prod.fst := by rw [hbefore, List.map_append]
      rw [← map_source, ← hmap]
      simp [Function.comp_def]
  · have hsign : (sign.map fun c => (c, false)).map Prod.fst = [] ∨
        (sign.map fun c => (c, false)).map Prod.fst = ['+'] := by
      simpa [Function.comp_def] using h.sign
    rw [List.map_append] at hbefore
    rw [hps] at hcut
    obtain ⟨ps₃, rfl, hleft⟩ := sign_kept hcut hsign hbefore
    refine Or.inr ⟨replaced (redactedEmail.map (·, false)) ps₃,
      replaced (redactedEmail.map (·, false)) ps₂, ?_, h.kept hleft hafter⟩
    rw [sub, hps]
    simp only [replaced_append, replaced_map_kept]

end

/-- A block in an address goes with it. -/
theorem not_survives_of_inEmail {before block after : List Char} (h : InEmail before block after) :
    ¬ Survives before block after := by
  obtain ⟨ps₁, u, v, ps₂, hscan, hbefore⟩ := h
  rw [scan_marking] at hscan
  obtain ⟨qs₁, qs, hqs, rfl, hrest⟩ := List.map_eq_append_iff.mp hscan
  obtain ⟨p, qs₂, rfl, hp, -⟩ := List.map_eq_cons_iff.mp hrest
  have hsource := source_scan email_comap_consuming (marking before block after)
  cases p with
  | kept x => cases hp
  | hit w =>
    have hw : w.length = u.length + (block.length + v.length) := by
      have hlen := congrArg List.length (Piece.hit.inj hp)
      simpa using hlen
    have hstart : before.length = (source qs₁).length + u.length := by
      rw [hbefore, List.length_append, ← map_source, List.length_map]
    rw [hqs] at hsource
    refine not_survives_of_unmarked ?_
    have hunmarked := unmarked_of_hit (l := redactedEmail) hsource (by omega) (by omega)
    rw [← hqs] at hunmarked
    refine unmarked_replaced redactedPhone ?_
    rw [source_scan phone_comap_consuming]
    exact hunmarked

/-- No digit of a delimited block survives exactly when there are at least nine, or they are
    part of an e-mail address. -/
theorem phone_block_iff {left sign block right : List Char}
    (h : DelimitedBlock left sign block right) :
    ¬ Survives (left ++ sign) block right ↔
      9 ≤ block.length ∨ InEmail (left ++ sign) block right := by
  constructor
  · intro hgone
    rcases email_pass h with hemail | ⟨u, v, hsub, hblock⟩
    · exact Or.inr hemail
    · by_contra hlen
      have hlength := h.length.1
      have height : (block.map fun c => (c, true)).length = 8 := by
        rw [List.length_map]
        omega
      obtain ⟨c, hc⟩ := hblock.left_in height
      refine hgone ⟨c, ?_⟩
      rw [redactMarked, hsub]
      exact hc
  · rintro (hlen | hemail)
    · rcases email_pass h with hemail | ⟨u, v, hsub, hblock⟩
      · exact not_survives_of_inEmail hemail
      · refine not_survives_of_unmarked ?_
        rw [redactMarked, hsub]
        exact hblock.removed (by simpa using hlen)
    · exact not_survives_of_inEmail hemail

theorem eleven_digits_gone :
    DelimitedBlock ['('] ['+'] "15551234567".toList [')'] ∧
      ¬ Survives (['('] ++ ['+']) "15551234567".toList [')'] := by
  have h : DelimitedBlock ['('] ['+'] "15551234567".toList [')'] := by
    refine ⟨by decide, forall_mem_of_all (by decide), by decide, ?_, ?_⟩
    · rintro c ⟨⟩
      decide
    · rintro c ⟨⟩
      decide
  exact ⟨h, (phone_block_iff h).mpr (Or.inl (by decide))⟩

/-- Eight digits in brackets stay. -/
theorem eight_digits_stay :
    ¬ ∀ left sign block right : List Char, DelimitedBlock left sign block right →
      ¬ Survives (left ++ sign) block right := by
  intro h
  refine h ['('] [] "12345678".toList [')']
    ⟨by decide, forall_mem_of_all (by decide), by decide, ?_, ?_⟩ ⟨'1', ?_⟩
  · rintro c ⟨⟩
    decide
  · rintro c ⟨⟩
    decide
  · decide

end LinkedOut
