/-
  The name pattern of `app/core/moderation_filter.py`: what it matches and which match it
  takes.

  A match is a run of two to four Title words with no word character before or after it
  (`nameRunRe_spells`), and of several the longest is taken (`nameRunRe_longestFirst`):
  each part of the pattern gives back characters that the next part cannot start with.
  Where Title words and gaps alternate, a match is a first part of them, for words and
  gaps end where their letters end (`run_prefix`).

  `isAlnum` is `str.isalnum`, of which only the ASCII characters are told
  (`AsciiAlnum`).
-/
import LinkedOut.Regex.Scan
import LinkedOut.Security

namespace LinkedOut

open Regex

/-! ## The pattern -/

section

variable (isAlnum : Char → Bool)

/-- `\w` -/
def isWord (c : Char) : Bool := isAlnum c || c == '_'

/-- `\b` -/
def wordBoundary (before after : Option Char) : Bool :=
  before.any (isWord isAlnum) != after.any (isWord isAlnum)

/-- `[A-Z][a-z]+` -/
def titleWord : Regex Char := .seq (.set Char.isUpper) (.plus (.set Char.isLower))

/-- `\s+[A-Z][a-z]+` -/
def gappedWord : Regex Char := .seq (.plus (.set isSpace)) titleWord

/-- `_NAME_RUN_RE`: `\b([A-Z][a-z]+(?:\s+[A-Z][a-z]+){1,3})\b` -/
def nameRunRe : Regex Char :=
  .seq (.look (wordBoundary isAlnum)) <|
    .seq (.seq titleWord (.rep gappedWord 1 (some 3))) (.look (wordBoundary isAlnum))

/-- What `str.isalnum` says of ASCII characters. -/
def AsciiAlnum : Prop := ∀ c : Char, c.toNat < 128 → isAlnum c = c.isAlphanum

end

/-! ## Title words and gaps -/

/-- An upper-case letter and one or more lower-case letters. -/
def TitleWord (w : List Char) : Prop :=
  ∃ c v, w = c :: v ∧ c.isUpper = true ∧ v ≠ [] ∧ ∀ x ∈ v, x.isLower = true

def Gap (g : List Char) : Prop := g ≠ [] ∧ ∀ c ∈ g, isSpace c = true

/-- Title words, each behind a gap. -/
def GappedWords (rest : List (List Char × List Char)) : Prop :=
  ∀ p ∈ rest, Gap p.1 ∧ TitleWord p.2

/-- The text of words and what stands before each. -/
def joined (rest : List (List Char × List Char)) : List Char := rest.flatMap fun p => p.1 ++ p.2

@[simp] theorem joined_nil : joined [] = [] := rfl

@[simp] theorem joined_cons (g w : List Char) (rest : List (List Char × List Char)) :
    joined ((g, w) :: rest) = g ++ (w ++ joined rest) := List.append_assoc _ _ _

@[simp] theorem joined_append (r₁ r₂ : List (List Char × List Char)) :
    joined (r₁ ++ r₂) = joined r₁ ++ joined r₂ := List.flatMap_append

theorem isSpace_range {c : Char} (h : isSpace c = true) : c.toNat ≤ 32 ∨ 133 ≤ c.toNat := by
  simp only [isSpace, inRanges, spaceRanges, List.any_cons, List.any_nil, Bool.or_false,
    Bool.or_eq_true, Bool.and_eq_true, decide_eq_true_eq] at h
  omega

theorem not_isUpper_of_isSpace {c : Char} (h : isSpace c = true) : c.isUpper = false := by
  have hspace := isSpace_range h
  refine Bool.eq_false_iff.mpr fun hupper => ?_
  have := upper_range hupper
  omega

theorem not_isSpace_of_isLower {c : Char} (h : c.isLower = true) : isSpace c = false := by
  have hlower := lower_range h
  refine Bool.eq_false_iff.mpr fun hspace => ?_
  have := isSpace_range hspace
  omega

theorem not_isSpace_of_isUpper {c : Char} (h : c.isUpper = true) : isSpace c = false := by
  refine Bool.eq_false_iff.mpr fun hspace => ?_
  rw [not_isUpper_of_isSpace hspace] at h
  cases h

theorem not_isAlpha_of_isSpace {c : Char} (h : isSpace c = true) : c.isAlpha = false := by
  refine Bool.eq_false_iff.mpr fun halpha => ?_
  rcases isAlpha_iff.mp halpha with hupper | hlower
  · rw [not_isUpper_of_isSpace h] at hupper
    cases hupper
  · rw [not_isSpace_of_isLower hlower] at h
    cases h

theorem Gap.starts {g : List Char} (h : Gap g) : ∃ x v, g = x :: v ∧ isSpace x = true := by
  obtain ⟨x, v, rfl⟩ := List.exists_cons_of_ne_nil h.1
  exact ⟨x, v, rfl, h.2 x List.mem_cons_self⟩

/-- Whitespace comes first where words stand behind gaps. -/
theorem joined_starts {rest : List (List Char × List Char)} (hrest : ∀ p ∈ rest, Gap p.1) :
    rest = [] ∨ ∃ x v, joined rest = x :: v ∧ isSpace x = true := by
  cases rest with
  | nil => exact Or.inl rfl
  | cons p rest =>
    obtain ⟨g, w⟩ := p
    obtain ⟨x, v, rfl, hspace⟩ := (hrest _ List.mem_cons_self).starts
    exact Or.inr ⟨x, v ++ w ++ joined rest, by simp, hspace⟩

section

variable {isAlnum : Char → Bool}

theorem AsciiAlnum.isWord (h : AsciiAlnum isAlnum) {c : Char} (hc : c.toNat < 128)
    (halnum : c.isAlphanum = true) : isWord isAlnum c = true := by
  rw [LinkedOut.isWord, h c hc, halnum]
  rfl

theorem AsciiAlnum.isWord_of_isUpper (h : AsciiAlnum isAlnum) {c : Char}
    (hc : c.isUpper = true) : LinkedOut.isWord isAlnum c = true := by
  have hrange := upper_range hc
  exact h.isWord (by omega) (by simp [Char.isAlphanum, isAlpha_iff, hc])

theorem AsciiAlnum.isWord_of_isLower (h : AsciiAlnum isAlnum) {c : Char}
    (hc : c.isLower = true) : LinkedOut.isWord isAlnum c = true := by
  have hrange := lower_range hc
  exact h.isWord (by omega) (by simp [Char.isAlphanum, isAlpha_iff, hc])

/-- Whitespace is no word character. -/
theorem AsciiAlnum.not_isWord_of_isSpace (h : AsciiAlnum isAlnum) {c : Char}
    (hascii : c.toNat < 128) (hc : isSpace c = true) : LinkedOut.isWord isAlnum c = false := by
  have hrange := isSpace_range hc
  have hle : c.toNat ≤ 32 := by omega
  have hne : c ≠ '_' := by
    rintro rfl
    exact absurd hle (by decide)
  have halnum : c.isAlphanum = false := by
    refine Bool.eq_false_iff.mpr fun halnum => ?_
    simp only [Char.isAlphanum, Bool.or_eq_true, isAlpha_iff] at halnum
    rcases halnum with (hu | hl) | hd
    · have := upper_range hu
      omega
    · have := lower_range hl
      omega
    · have := digit_range hd
      omega
  rw [LinkedOut.isWord, h c hascii, halnum]
  simpa using hne

end

theorem TitleWord.ne_nil {w : List Char} (h : TitleWord w) : w ≠ [] := by
  obtain ⟨c, v, rfl, -⟩ := h
  exact List.cons_ne_nil c v

/-- A Title word ends with a lower-case letter. -/
theorem TitleWord.last {w : List Char} (h : TitleWord w) :
    ∃ v c, w = v ++ [c] ∧ c.isLower = true := by
  obtain ⟨c, v, rfl, -, hne, hlower⟩ := h
  obtain ⟨u, x, rfl⟩ := (List.eq_nil_or_concat' v).resolve_left hne
  exact ⟨c :: u, x, rfl, hlower x (by simp)⟩

/-- The letters of a Title word. -/
theorem TitleWord.isAlpha {w : List Char} (h : TitleWord w) : ∀ c ∈ w, c.isAlpha = true := by
  obtain ⟨c, v, rfl, hupper, -, hlower⟩ := h
  intro x hx
  rcases List.mem_cons.mp hx with rfl | hx
  · exact isAlpha_iff.mpr (Or.inl hupper)
  · exact isAlpha_iff.mpr (Or.inr (hlower x hx))

/-! ## What the pattern matches -/

theorem titleWord_spells {b w a : List Char} : titleWord.Spells b w a ↔ TitleWord w := by
  constructor
  · rintro ⟨-, v, rfl, ⟨c, hupper, rfl⟩, hlower⟩
    obtain ⟨hne, hall⟩ := spells_plus_set.mp hlower
    exact ⟨c, v, rfl, hupper, hne, hall⟩
  · rintro ⟨c, v, rfl, hupper, hne, hall⟩
    exact ⟨[c], v, rfl, ⟨c, hupper, rfl⟩, spells_plus_set.mpr ⟨hne, hall⟩⟩

theorem gappedWord_spells {b w a : List Char} :
    gappedWord.Spells b w a ↔ ∃ g v, w = g ++ v ∧ Gap g ∧ TitleWord v := by
  constructor
  · rintro ⟨g, v, rfl, hgap, hword⟩
    exact ⟨g, v, rfl, spells_plus_set.mp hgap, titleWord_spells.mp hword⟩
  · rintro ⟨g, v, rfl, hgap, hword⟩
    exact ⟨g, v, rfl, spells_plus_set.mpr hgap, titleWord_spells.mpr hword⟩

theorem gappedWords_spells {k : Nat} {b w a : List Char} :
    SpellsTimes gappedWord.Spells k b w a ↔
      ∃ rest, rest.length = k ∧ w = joined rest ∧ GappedWords rest := by
  induction k generalizing b w with
  | zero =>
    constructor
    · intro h
      exact ⟨[], rfl, h, fun p hp => by cases hp⟩
    · rintro ⟨rest, hlen, rfl, -⟩
      rw [List.length_eq_zero_iff.mp hlen]
      rfl
  | succ k ih =>
    constructor
    · rintro ⟨x, v, rfl, -, hx, hv⟩
      obtain ⟨g, u, rfl, hgap, hword⟩ := gappedWord_spells.mp hx
      obtain ⟨rest, rfl, rfl, hrest⟩ := ih.mp hv
      refine ⟨(g, u) :: rest, rfl, by rw [joined_cons, List.append_assoc], fun p hp => ?_⟩
      rcases List.mem_cons.mp hp with rfl | hp
      · exact ⟨hgap, hword⟩
      · exact hrest p hp
    · rintro ⟨rest, hlen, rfl, hrest⟩
      obtain ⟨⟨g, u⟩, rest, rfl⟩ := List.exists_cons_of_length_eq_add_one hlen
      obtain ⟨hgap, hword⟩ := hrest _ List.mem_cons_self
      refine ⟨g ++ u, joined rest, by rw [joined_cons, List.append_assoc], ?_,
        gappedWord_spells.mpr ⟨g, u, rfl, hgap, hword⟩,
        ih.mpr ⟨rest, by simpa using hlen, rfl, fun p hp => hrest p (List.mem_cons_of_mem _ hp)⟩⟩
      exact fun hnil => hgap.1 (List.append_eq_nil_iff.mp hnil).1

/-- A run of two to four Title words with gaps between them. -/
structure NameRun (w first : List Char) (rest : List (List Char × List Char)) : Prop where
  text : w = first ++ joined rest
  title : TitleWord first
  gapped : GappedWords rest
  two : 1 ≤ rest.length
  four : rest.length ≤ 3

/-- A run of Title words ends with a lower-case letter. -/
theorem run_last {first : List Char} {rest : List (List Char × List Char)}
    (hfirst : TitleWord first) (hrest : GappedWords rest) :
    ∃ v c, first ++ joined rest = v ++ [c] ∧ c.isLower = true := by
  rcases List.eq_nil_or_concat' rest with rfl | ⟨rest, ⟨g, w⟩, rfl⟩
  · simpa using hfirst.last
  · obtain ⟨v, c, rfl, hc⟩ := (hrest (g, w) (by simp)).2.last
    exact ⟨first ++ (joined rest ++ (g ++ v)), c, by simp, hc⟩

section

variable {isAlnum : Char → Bool}

/-- No word character stands here. -/
def NoWord (isAlnum : Char → Bool) (c : Option Char) : Prop := c.any (isWord isAlnum) = false

theorem wordBoundary_left {x y : Option Char} (hy : y.any (isWord isAlnum) = true) :
    wordBoundary isAlnum x y = true ↔ NoWord isAlnum x := by
  simp [wordBoundary, NoWord, hy]

theorem wordBoundary_right {x y : Option Char} (hx : x.any (isWord isAlnum) = true) :
    wordBoundary isAlnum x y = true ↔ NoWord isAlnum y := by
  simp [wordBoundary, NoWord, hx]

theorem AsciiAlnum.starts (halnum : AsciiAlnum isAlnum) {first : List Char}
    (hfirst : TitleWord first) (t : List Char) :
    (first ++ t).head?.any (LinkedOut.isWord isAlnum) = true := by
  obtain ⟨c, v, rfl, hupper, -⟩ := hfirst
  exact halnum.isWord_of_isUpper hupper

theorem AsciiAlnum.stops (halnum : AsciiAlnum isAlnum) {first : List Char}
    {rest : List (List Char × List Char)} (hfirst : TitleWord first) (hrest : GappedWords rest)
    (b : List Char) :
    ((first ++ joined rest).reverse ++ b).head?.any (LinkedOut.isWord isAlnum) = true := by
  obtain ⟨v, c, heq, hlower⟩ := run_last hfirst hrest
  rw [heq, List.reverse_append]
  exact halnum.isWord_of_isLower hlower

/-- The matches are the runs with no word character next to them. -/
theorem nameRunRe_spells (halnum : AsciiAlnum isAlnum) {b w a : List Char} :
    (nameRunRe isAlnum).Spells b w a ↔
      NoWord isAlnum b.head? ∧ NoWord isAlnum a.head? ∧ ∃ first rest, NameRun w first rest := by
  constructor
  · rintro ⟨-, -, rfl, ⟨rfl, hbefore⟩, -, -, rfl,
      ⟨first, words, rfl, hfirst, k, hmin, hmax, hk⟩, ⟨rfl, hafter⟩⟩
    obtain ⟨rest, rfl, rfl, hrest⟩ := gappedWords_spells.mp hk
    have htitle := titleWord_spells.mp hfirst
    rw [List.append_nil, List.append_assoc, wordBoundary_left (halnum.starts htitle _)] at hbefore
    rw [List.reverse_nil, List.nil_append, wordBoundary_right (halnum.stops htitle hrest _)]
      at hafter
    exact ⟨hbefore, hafter, first, rest, by simp, htitle, hrest, hmin, hmax 3 rfl⟩
  · rintro ⟨hbefore, hafter, first, rest, rfl, hfirst, hrest, htwo, hfour⟩
    have hrun : (Regex.seq titleWord (.rep gappedWord 1 (some 3))).Spells b (first ++ joined rest)
        a :=
      ⟨first, joined rest, rfl, titleWord_spells.mpr hfirst, rest.length, htwo,
        fun m hm => Option.some.inj hm ▸ hfour, gappedWords_spells.mpr ⟨rest, rfl, rfl, hrest⟩⟩
    refine ⟨[], _, rfl, ⟨rfl, ?_⟩, first ++ joined rest, [], by simp, hrun, rfl, ?_⟩
    · change wordBoundary isAlnum b.head? ((first ++ joined rest) ++ a).head? = true
      rw [List.append_assoc, wordBoundary_left (halnum.starts hfirst _)]
      exact hbefore
    · rw [List.reverse_nil, List.nil_append, wordBoundary_right (halnum.stops hfirst hrest _)]
      exact hafter

theorem nameRunRe_consuming (halnum : AsciiAlnum isAlnum) : (nameRunRe isAlnum).Consuming := by
  rintro b w a hw rfl
  obtain ⟨-, -, first, rest, hrun⟩ := (nameRunRe_spells halnum).mp hw
  exact hrun.title.ne_nil (List.append_eq_nil_iff.mp hrun.text.symm).1

end

/-! ## Which match is taken -/

/-- No Title word starts with a space. -/
theorem titleWord_ends_of_space {c : Cursor Char} {x : Char} (hx : c.after.head? = some x)
    (hspace : isSpace x = true) : titleWord.ends c = [] := by
  rw [ends_eq_nil_iff]
  intro w a hafter hw
  obtain ⟨y, v, rfl, hupper, -⟩ := titleWord_spells.mp hw
  rw [hafter] at hx
  obtain rfl : y = x := Option.some.inj hx
  rw [not_isUpper_of_isSpace hspace] at hupper
  cases hupper

/-- No gap starts with a lower-case letter. -/
theorem gappedWord_ends_of_lower {c : Cursor Char} {x : Char} (hx : c.after.head? = some x)
    (hlower : x.isLower = true) : gappedWord.ends c = [] := by
  rw [ends_eq_nil_iff]
  intro w a hafter hw
  obtain ⟨g, v, rfl, hgap, -⟩ := gappedWord_spells.mp hw
  obtain ⟨y, g, rfl, hspace⟩ := hgap.starts
  rw [hafter] at hx
  obtain rfl : y = x := Option.some.inj hx
  rw [not_isSpace_of_isLower hlower] at hspace
  cases hspace

/-- A Title word gives back letters from its end. -/
theorem titleWord_orderedBy :
    titleWord.OrderedBy fun d e => Beyond d e ∧ ∃ x, e.after.head? = some x ∧ x.isLower = true :=
  orderedBy_seq (orderedBy_rep_set Char.isLower 1 none) (orderedBy_set _ _)

theorem gappedWord_orderedBy :
    gappedWord.OrderedBy fun d e => Beyond d e ∧ ∃ x, e.after.head? = some x ∧ x.isLower = true :=
  orderedBy_seq titleWord_orderedBy fun c =>
    (orderedBy_rep_set isSpace 1 none c).imp fun ⟨_, _, hx, hspace⟩ =>
      titleWord_ends_of_space hx hspace

theorem gappedWords_ends_of_lower {c : Cursor Char} {x : Char} (hx : c.after.head? = some x)
    (hlower : x.isLower = true) : (Regex.rep gappedWord 1 (some 3)).ends c = [] := by
  rw [ends_eq_nil_iff]
  rintro w a hafter ⟨k, hmin, -, hk⟩
  cases k with
  | zero => cases hmin
  | succ k =>
    obtain ⟨u, v, rfl, -, hu, -⟩ := hk
    rw [List.append_assoc] at hafter
    exact (ends_eq_nil_iff _ _).mp (gappedWord_ends_of_lower hx hlower) u (v ++ a) hafter hu

/-- The longest run is taken. -/
theorem nameRunRe_longestFirst (isAlnum : Char → Bool) : (nameRunRe isAlnum).LongestFirst := by
  refine orderedBy_seq (orderedBy_seq_look (orderedBy_seq ?_ fun c => ?_) _) (orderedBy_look _ _)
  · refine longestFirst_rep (fun c => (gappedWord_orderedBy c).imp ?_) 1 (some 3)
    rintro d e ⟨hbeyond, x, hx, hlower⟩
    exact ⟨hbeyond, gappedWord_ends_of_lower hx hlower⟩
  · refine (titleWord_orderedBy c).imp ?_
    rintro d e ⟨-, x, hx, hlower⟩
    exact gappedWords_ends_of_lower hx hlower

/-! ## Two readings of one text -/

/-- A stretch of letters of one class ends where the class ends. -/
theorem stretch_inj {p : Char → Bool} {s s' t t' : List Char} (hs : ∀ c ∈ s, p c = true)
    (hs' : ∀ c ∈ s', p c = true) (ht : ∀ c, t.head? = some c → p c = false)
    (ht' : ∀ c, t'.head? = some c → p c = false) (h : s ++ t = s' ++ t') : s = s' ∧ t = t' := by
  have hspan : ∀ s t : List Char, (∀ c ∈ s, p c = true) →
      (∀ c, t.head? = some c → p c = false) → (s ++ t).takeWhile p = s := by
    intro s t hs ht
    rw [List.takeWhile_append_of_pos hs]
    cases t with
    | nil => rw [List.takeWhile_nil, List.append_nil]
    | cons c t => rw [List.takeWhile_cons, ht c rfl]; simp
  have heq : s = s' := by rw [← hspan s t hs ht, h, hspan s' t' hs' ht']
  exact ⟨heq, List.append_cancel_left (heq ▸ h)⟩

/-- What can follow a whole word: no letter. -/
def WordEnds (t : List Char) : Prop := ∀ c, t.head? = some c → c.isAlpha = false

theorem wordEnds_joined {rest : List (List Char × List Char)} (hrest : GappedWords rest)
    {a : List Char} (ha : WordEnds a) : WordEnds (joined rest ++ a) := by
  rcases joined_starts fun p hp => (hrest p hp).1 with rfl | ⟨x, v, hjoined, hspace⟩
  · exact ha
  · rw [hjoined]
    rintro c ⟨⟩
    exact not_isAlpha_of_isSpace hspace

/-- Whole words at the start of a run of words are the first words of the run, as long as it
    has that many. -/
theorem run_prefix {r₁ r₂ : List (List Char × List Char)} (h₁ : GappedWords r₁)
    (h₂ : GappedWords r₂) {x a : List Char} (hx : WordEnds x) (ha : WordEnds a)
    (h : joined r₁ ++ x = joined r₂ ++ a) :
    (∃ r, r₂ = r₁ ++ r ∧ x = joined r ++ a) ∨
      ∃ g w r, r₁ = r₂ ++ (g, w) :: r ∧ a = g ++ (w ++ (joined r ++ x)) := by
  induction r₁ generalizing r₂ with
  | nil => exact Or.inl ⟨r₂, rfl, h⟩
  | cons p r₁ ih =>
    obtain ⟨g, w⟩ := p
    have h₁' : GappedWords r₁ := fun p hp => h₁ p (List.mem_cons_of_mem _ hp)
    cases r₂ with
    | nil =>
      refine Or.inr ⟨g, w, r₁, rfl, ?_⟩
      simpa using h.symm
    | cons p' r₂ =>
      obtain ⟨g', w'⟩ := p'
      have h₂' : GappedWords r₂ := fun p hp => h₂ p (List.mem_cons_of_mem _ hp)
      obtain ⟨⟨-, hgap⟩, hword⟩ := h₁ _ List.mem_cons_self
      obtain ⟨⟨-, hgap'⟩, hword'⟩ := h₂ _ List.mem_cons_self
      have hstart : ∀ {v : List Char} (t : List Char), TitleWord v →
          ∀ c, (v ++ t).head? = some c → isSpace c = false := by
        rintro _ t ⟨y, v, rfl, hupper, -⟩ c ⟨⟩
        exact not_isSpace_of_isUpper hupper
      simp only [joined_cons, List.append_assoc] at h
      obtain ⟨rfl, hwords⟩ := stretch_inj hgap hgap' (hstart _ hword) (hstart _ hword') h
      obtain ⟨rfl, hrest⟩ := stretch_inj hword.isAlpha hword'.isAlpha (wordEnds_joined h₁' hx)
        (wordEnds_joined h₂' ha) hwords
      rcases ih h₁' h₂' hrest with ⟨r, rfl, hr⟩ | ⟨g', w', r, rfl, hr⟩
      · exact Or.inl ⟨r, rfl, hr⟩
      · exact Or.inr ⟨g', w', r, rfl, hr⟩

end LinkedOut
