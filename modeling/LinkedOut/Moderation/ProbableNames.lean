/-
  `find_probable_names` of `app/core/moderation_filter.py`: the runs of Title words that
  are reported.

  `probable_names`: each is reported once and is two to four Title words of the text, and of
  a maximal run without an allowlisted phrase every word is in a reported one, but for a
  last word that is left alone when the scan takes four words at a time.
  The allowlist is looked up as a substring, so it excuses a name whose words only contain a
  phrase between them (`allowlist_whole_words_iff`).

  The sentence-start test of the source is left out: nothing is done with its answer.
-/
import LinkedOut.Moderation.NameRuns
import Mathlib.Data.List.Infix

namespace LinkedOut

open Regex

/-! ## app/core/moderation_filter.py -/

/-- `_ALLOWLIST_PHRASES` -/
def allowlistPhrases : List String :=
  ["human resources", "vice president", "senior vice president", "engineering team",
    "product team", "sales team", "customer success", "business development",
    "information technology", "quality assurance", "supply chain", "united states", "new york",
    "san francisco", "new delhi", "human resource department", "board of directors",
    "chief executive officer", "chief financial officer", "chief technology officer",
    "work life balance", "employee stock ownership", "the management", "senior management",
    "middle management"]

/-- `str.lower`, of letters `[A-Za-z]` and whitespace. -/
def lowered (w : List Char) : List Char := w.map Char.toLower

/-- `str.split` -/
def splitWords (w : List Char) : List (List Char) := (w.splitOnP isSpace).filter (· ≠ [])

/-- `phrase in lowered`, for any of the phrases. -/
def mentionsPhrase (candidate : List Char) : Bool :=
  allowlistPhrases.any fun phrase => decide (phrase.toList <:+: lowered candidate)

/-- The candidates that the loop passes over. -/
def isExcused (candidate : List Char) : Bool :=
  allowlistPhrases.any (fun phrase => phrase.toList == lowered candidate) ||
    (mentionsPhrase candidate && decide ((splitWords candidate).length ≤ 3))

/-- One round of the loop; `seen` is the set of what is found. -/
def keepName (found : List String) (candidate : List Char) : List String :=
  if isExcused candidate then found
  else if String.ofList candidate ∈ found then found
  else found ++ [String.ofList candidate]

def findProbableNames (isAlnum : Char → Bool) (text : String) : List String :=
  if text = "" then []
  else ((nameRunRe isAlnum).findall text.toList).foldl keepName []

/-! ## The loop -/

theorem mem_keepName {found : List String} {candidate : List Char} {name : String} :
    name ∈ keepName found candidate ↔
      name ∈ found ∨ (isExcused candidate = false ∧ name = String.ofList candidate) := by
  unfold keepName
  split
  · rename_i hexcused
    simp [hexcused]
  · rename_i hexcused
    rw [Bool.not_eq_true] at hexcused
    split
    · rename_i hseen
      refine ⟨Or.inl, ?_⟩
      rintro (h | ⟨-, rfl⟩)
      · exact h
      · exact hseen
    · simp [hexcused]

theorem mem_foldl_keepName {candidates : List (List Char)} {found : List String} {name : String} :
    name ∈ candidates.foldl keepName found ↔
      name ∈ found ∨ ∃ w ∈ candidates, isExcused w = false ∧ name = String.ofList w := by
  induction candidates generalizing found with
  | nil => simp
  | cons w candidates ih =>
    rw [List.foldl_cons, ih, mem_keepName, or_assoc, List.exists_mem_cons_iff]

theorem nodup_foldl_keepName {candidates : List (List Char)} {found : List String}
    (h : found.Nodup) : (candidates.foldl keepName found).Nodup := by
  induction candidates generalizing found with
  | nil => exact h
  | cons w candidates ih =>
    refine ih ?_
    unfold keepName
    split
    · exact h
    · split
      · exact h
      · rename_i hnew
        refine List.nodup_append.mpr ⟨h, List.nodup_singleton _, fun a ha b hb => ?_⟩
        rw [List.mem_singleton.mp hb]
        exact fun heq => hnew (heq ▸ ha)

/-- What is reported are the matches that are not excused. -/
theorem mem_findProbableNames {isAlnum : Char → Bool} {text name : String} :
    name ∈ findProbableNames isAlnum text ↔
      ∃ w ∈ (nameRunRe isAlnum).findall text.toList, isExcused w = false ∧
        name = String.ofList w := by
  rw [findProbableNames]
  split
  · rename_i hempty
    subst hempty
    constructor
    · intro h
      cases h
    · rintro ⟨w, hw, -⟩
      cases hw
  · rw [mem_foldl_keepName]
    simp

/-! ## Runs in a text -/

/-- At this place of the text stand Title words with gaps between them, and no word
    character before the first or after the last. -/
structure RunIn (isAlnum : Char → Bool) (text before : List Char)
    (run : List (List Char × List Char)) (after : List Char) : Prop where
  text_eq : text = before ++ (joined run ++ after)
  words : ∃ first rest, run = ([], first) :: rest ∧ TitleWord first ∧ GappedWords rest
  starts : NoWord isAlnum before.getLast?
  stops : NoWord isAlnum after.head?

/-- No further Title word stands before or after it. -/
structure MaximalRun (isAlnum : Char → Bool) (text before : List Char)
    (run : List (List Char × List Char)) (after : List Char) : Prop
    extends RunIn isAlnum text before run after where
  left : ¬ ∃ b w g, before = b ++ (w ++ g) ∧ TitleWord w ∧ Gap g ∧ NoWord isAlnum b.getLast?
  right : ¬ ∃ g w a, after = g ++ (w ++ a) ∧ Gap g ∧ TitleWord w ∧ NoWord isAlnum a.head?

/-- The text has no whitespace that counts as a word character. -/
def SpacesBreak (isAlnum : Char → Bool) (text : List Char) : Prop :=
  ∀ c ∈ text, isSpace c = true → isWord isAlnum c = false

section

variable {isAlnum : Char → Bool}

theorem AsciiAlnum.spacesBreak (halnum : AsciiAlnum isAlnum) {text : List Char}
    (hascii : ∀ c ∈ text, c.toNat < 128) : SpacesBreak isAlnum text :=
  fun c hc hspace => halnum.not_isWord_of_isSpace (hascii c hc) hspace

theorem AsciiAlnum.wordEnds (halnum : AsciiAlnum isAlnum) {t : List Char}
    (h : NoWord isAlnum t.head?) : WordEnds t := by
  intro c hc
  refine Bool.eq_false_iff.mpr fun halpha => ?_
  rw [NoWord, hc, Option.any_some] at h
  have hword : LinkedOut.isWord isAlnum c = true := by
    rcases isAlpha_iff.mp halpha with hu | hl
    · exact halnum.isWord_of_isUpper hu
    · exact halnum.isWord_of_isLower hl
  rw [hword] at h
  cases h

/-- A gap or the end of the run breaks the word before it. -/
theorem SpacesBreak.noWord {rest : List (List Char × List Char)} {a : List Char}
    (hspaces : SpacesBreak isAlnum (joined rest ++ a)) (hrest : GappedWords rest)
    (ha : NoWord isAlnum a.head?) : NoWord isAlnum (joined rest ++ a).head? := by
  rcases joined_starts fun p hp => (hrest p hp).1 with rfl | ⟨x, v, hjoined, hspace⟩
  · exact ha
  · rw [hjoined] at hspaces ⊢
    exact hspaces x List.mem_cons_self hspace

theorem joined_eq_nil {rest : List (List Char × List Char)} (hrest : GappedWords rest)
    (h : joined rest = []) : rest = [] := by
  cases rest with
  | nil => rfl
  | cons p rest =>
    obtain ⟨g, w⟩ := p
    rw [joined_cons] at h
    exact absurd (List.append_eq_nil_iff.mp h).1 (hrest _ List.mem_cons_self).1.1

/-! ## What the scan does at a run -/

/-- Spaces start no match. -/
theorem spaces_kept (halnum : AsciiAlnum isAlnum) {b : List Char} {ps : List (Piece Char)}
    (hcut : (nameRunRe isAlnum).Cut b ps) {g t : List Char} (hg : ∀ c ∈ g, isSpace c = true)
    (hsource : source ps = g ++ t) : ∃ ps', ps = g.map .kept ++ ps' ∧ source ps' = t := by
  induction g generalizing b ps with
  | nil => exact ⟨ps, rfl, hsource⟩
  | cons x g ih =>
    match ps, hcut, hsource with
    | .kept y :: ps, hcut, hsource =>
      obtain ⟨rfl, hrest⟩ := List.cons.inj hsource
      obtain ⟨ps', rfl, ht⟩ := ih hcut.2 (fun c hc => hg c (List.mem_cons_of_mem _ hc)) hrest
      exact ⟨ps', rfl, ht⟩
    | .hit w :: ps, hcut, hsource =>
      obtain ⟨-, -, first, rest, rfl, ⟨y, v, rfl, hupper, -⟩, -⟩ :=
        (nameRunRe_spells halnum).mp hcut.2.1.spells
      obtain ⟨rfl, -⟩ := List.cons.inj hsource
      have hspace := hg y List.mem_cons_self
      rw [not_isUpper_of_isSpace hspace] at hupper
      cases hupper

/-- A beginning of the words that is no shorter text than the first three is all of these. -/
theorem take_three {rest' r : List (List Char × List Char)} (hr : GappedWords r)
    (hmax : rest'.length ≤ 3)
    (hle : (joined ((rest' ++ r).take 3)).length ≤ (joined rest').length) :
    (rest' ++ r).take 3 = rest' ∧ (rest' ++ r).drop 3 = r := by
  have htake : (rest' ++ r).take 3 = rest' ++ r.take (3 - rest'.length) := by
    rw [List.take_append, List.take_of_length_le hmax]
  have hnil : r.take (3 - rest'.length) = [] := by
    refine joined_eq_nil (fun p hp => hr p (List.mem_of_mem_take hp)) ?_
    rw [htake, joined_append, List.length_append] at hle
    exact List.length_eq_zero_iff.mp (by omega)
  rw [hnil, List.append_nil] at htake
  have hsame := List.take_append_drop 3 (rest' ++ r)
  rw [htake] at hsame
  exact ⟨htake, List.append_cancel_left hsame⟩

/-- Where a run of two words or more starts, the scan takes the first four. -/
theorem hit_at_run (halnum : AsciiAlnum isAlnum) {b : List Char} {ps : List (Piece Char)}
    (hcut : (nameRunRe isAlnum).Cut b ps) {w : List Char} {rest : List (List Char × List Char)}
    {a : List Char} (hsource : source ps = w ++ (joined rest ++ a)) (hw : TitleWord w)
    (hrest : GappedWords rest) (htwo : 1 ≤ rest.length) (hbefore : NoWord isAlnum b.head?)
    (hafter : NoWord isAlnum a.head?) (hspaces : SpacesBreak isAlnum (joined rest ++ a))
    (hright : ¬ ∃ g w a', a = g ++ (w ++ a') ∧ Gap g ∧ TitleWord w ∧ NoWord isAlnum a'.head?) :
    ∃ ps', ps = .hit (w ++ joined (rest.take 3)) :: ps' ∧
      source ps' = joined (rest.drop 3) ++ a := by
  have htake : GappedWords (rest.take 3) := fun p hp => hrest p (List.mem_of_mem_take hp)
  have hdrop : GappedWords (rest.drop 3) := fun p hp => hrest p (List.mem_of_mem_drop hp)
  have hsplit : joined rest = joined (rest.take 3) ++ joined (rest.drop 3) := by
    rw [← joined_append, List.take_append_drop]
  have htext : w ++ (joined rest ++ a) =
      (w ++ joined (rest.take 3)) ++ (joined (rest.drop 3) ++ a) := by
    rw [hsplit]
    simp
  have hfour : (nameRunRe isAlnum).Spells b (w ++ joined (rest.take 3))
      (joined (rest.drop 3) ++ a) := by
    refine (nameRunRe_spells halnum).mpr ⟨hbefore, ?_, w, rest.take 3, rfl, hw, htake, ?_, ?_⟩
    · refine SpacesBreak.noWord (fun c hc => hspaces c ?_) hdrop hafter
      rw [hsplit, List.append_assoc]
      exact List.mem_append_right _ hc
    · rw [List.length_take]
      omega
    · rw [List.length_take]
      omega
  match ps, hcut, hsource with
  | [], _, hsource => exact absurd (List.append_eq_nil_iff.mp hsource.symm).1 hw.ne_nil
  | .kept x :: ps, hcut, hsource => exact absurd hfour (hcut.1 _ _ (hsource.trans htext))
  | .hit h :: ps, hcut, hsource =>
    obtain ⟨hspells, hlongest⟩ :=
      (preferred_iff (nameRunRe_longestFirst isAlnum)).mp hcut.2.1
    obtain ⟨-, hends, first, rest', rfl, hfirst, hrest', -, hmax⟩ :=
      (nameRunRe_spells halnum).mp hspells
    have hle := hlongest _ _ (hsource.trans htext) hfour
    have heq : first ++ (joined rest' ++ source ps) = w ++ (joined rest ++ a) := by
      rw [← hsource, source_cons, Piece.source, List.append_assoc]
    obtain ⟨rfl, hwords⟩ := stretch_inj hfirst.isAlpha hw.isAlpha
      (wordEnds_joined hrest' (halnum.wordEnds hends))
      (wordEnds_joined hrest (halnum.wordEnds hafter)) heq
    rcases run_prefix hrest' hrest (halnum.wordEnds hends) (halnum.wordEnds hafter) hwords with
      ⟨r, rfl, hr⟩ | ⟨g, v, r, rfl, hr⟩
    · -- a shorter run than the first four words is not the longest
      rw [List.length_append, List.length_append] at hle
      obtain ⟨htake', hdrop'⟩ := take_three (fun p hp => hrest p (List.mem_append_right _ hp)) hmax
        (Nat.le_of_add_le_add_left hle)
      exact ⟨ps, by rw [htake'], by rw [hdrop', hr]⟩
    · refine absurd ⟨g, v, joined r ++ source ps, hr, (hrest' (g, v) (by simp)).1,
        (hrest' (g, v) (by simp)).2, ?_⟩ hright
      refine SpacesBreak.noWord (fun c hc => hspaces c ?_) (fun p hp => hrest' p (by simp [hp]))
        hends
      rw [hr]
      simp only [List.mem_append] at hc ⊢
      exact Or.inr (Or.inr (Or.inr hc))

theorem Gap.last {g : List Char} (h : Gap g) : ∃ z c, g = z ++ [c] ∧ isSpace c = true := by
  obtain ⟨z, c, rfl⟩ := (List.eq_nil_or_concat' g).resolve_left h.1
  exact ⟨z, c, rfl, h.2 c (by simp)⟩

/-- Behind a gap stands a space, or what the text after it ends with. -/
theorem Gap.getLast? {g : List Char} (h : Gap g) (b : List Char) {t : List Char}
    (ht : ∀ c, t.getLast? = some c → isSpace c = true) :
    ∀ c, (b ++ (g ++ t)).getLast? = some c → isSpace c = true := by
  intro c hc
  rw [← List.append_assoc, List.getLast?_append] at hc
  cases hlast : t.getLast? with
  | some d =>
    rw [hlast, Option.some_or] at hc
    exact ht c (hlast.trans hc)
  | none =>
    rw [hlast, Option.none_or] at hc
    obtain ⟨z, d, rfl, hspace⟩ := h.last
    obtain rfl : d = c := by simpa using hc
    exact hspace

/-- A text of Title words that is cut behind a space, and before an upper-case letter, is cut
    between a gap and a word. -/
theorem gap_before {first : List Char} {rest : List (List Char × List Char)}
    (hfirst : TitleWord first) (hrest : GappedWords rest) {u v : List Char} (hu : u ≠ [])
    (hlast : ∀ c, u.getLast? = some c → c.isAlpha = false)
    (hv : ∃ c, v.head? = some c ∧ isSpace c = false) (h : first ++ joined rest = u ++ v) :
    ∃ u' w g, u = u' ++ (w ++ g) ∧ TitleWord w ∧ Gap g ∧
      ∀ c, u'.getLast? = some c → isSpace c = true := by
  -- no word ends at the cut
  have hcut : ∀ {w}, TitleWord w → ∀ b, u ≠ b ++ w := by
    rintro w hw b rfl
    obtain ⟨x, c, rfl, hlower⟩ := hw.last
    have halpha := hlast c (by simp)
    rw [isAlpha_iff.mpr (Or.inr hlower)] at halpha
    cases halpha
  induction rest generalizing first u with
  | nil =>
    rw [joined_nil, List.append_nil] at h
    obtain ⟨x, y, rfl⟩ := (List.eq_nil_or_concat' u).resolve_left hu
    have halpha := hfirst.isAlpha y (by rw [h]; simp)
    rw [hlast y (by simp)] at halpha
    cases halpha
  | cons p rest ih =>
    obtain ⟨g, w⟩ := p
    obtain ⟨hgap, hw⟩ := hrest _ List.mem_cons_self
    have hrest' : GappedWords rest := fun p hp => hrest p (List.mem_cons_of_mem _ hp)
    rw [joined_cons] at h
    rcases List.append_eq_append_iff.mp h with ⟨s, rfl, hs⟩ | ⟨s, rfl, -⟩
    · rcases List.append_eq_append_iff.mp hs with ⟨t, rfl, ht⟩ | ⟨t, rfl, rfl⟩
      · by_cases hnil : t = []
        · subst hnil
          exact ⟨[], first, g, by simp, hfirst, hgap, fun c hc => by cases hc⟩
        · have hlast' : ∀ c, t.getLast? = some c → c.isAlpha = false := by
            intro c hc
            refine hlast c ?_
            rw [← List.append_assoc, List.getLast?_append, hc, Option.some_or]
          obtain ⟨u', w', g', rfl, hw', hgap', hu'⟩ := ih hw hrest' hnil hlast' ht fun hw b hb =>
            hcut hw (first ++ (g ++ b)) (by rw [hb]; simp)
          exact ⟨first ++ (g ++ u'), w', g', by simp, hw', hgap', hgap.getLast? first hu'⟩
      · cases t with
        | nil => exact ⟨[], first, s, by simp, hfirst, by simpa using hgap, fun c hc => by cases hc⟩
        | cons x t =>
          obtain ⟨c, hc, hspace⟩ := hv
          obtain rfl : x = c := Option.some.inj hc
          rw [hgap.2 x (by simp)] at hspace
          cases hspace
    · obtain ⟨x, y, rfl⟩ := (List.eq_nil_or_concat' u).resolve_left hu
      have halpha := hfirst.isAlpha y (by simp)
      rw [hlast y (by simp)] at halpha
      cases halpha

/-- A maximal run is cut off the text before it. -/
theorem MaximalRun.start (halnum : AsciiAlnum isAlnum) {text before after : List Char}
    {run : List (List Char × List Char)} (hrun : MaximalRun isAlnum text before run after)
    (hspaces : SpacesBreak isAlnum text) {ps : List (Piece Char)}
    (hcut : (nameRunRe isAlnum).Cut [] ps) (hsource : source ps = text) :
    ∃ ps₁ ps₂, ps = ps₁ ++ ps₂ ∧ source ps₁ = before ∧ source ps₂ = joined run ++ after := by
  have htext := hrun.text_eq
  rw [← hsource] at htext
  rcases source_split htext with hsplit | ⟨ps₁, u, v, ps₂, rfl, hu, hv, hbefore, hrest⟩
  · exact hsplit
  exfalso
  obtain ⟨hstarts, -, first, words, hname⟩ := (nameRunRe_spells halnum).mp hcut.spells.2
  rw [List.append_nil] at hstarts
  obtain ⟨w, gapped, rfl, ⟨c, w, rfl, hupper, -⟩, -⟩ := hrun.words
  obtain ⟨y, v, rfl⟩ := List.exists_cons_of_ne_nil hv
  obtain ⟨rfl, -⟩ : c = y ∧ _ := List.cons.inj hrest
  -- the letter before the run is in the match, and no letter of a word
  have hlast : ∀ d, u.getLast? = some d → d.isAlpha = false := by
    intro d hd
    have hnoword := hrun.starts
    rw [hbefore, List.getLast?_append, hd] at hnoword
    exact halnum.wordEnds (t := [d]) hnoword d rfl
  obtain ⟨u', w', g, rfl, hw', hg, hu'⟩ := gap_before hname.title hname.gapped hu hlast
    ⟨c, rfl, not_isSpace_of_isUpper hupper⟩ hname.text.symm
  refine hrun.left ⟨source ps₁ ++ u', w', g, by rw [hbefore]; simp, hw', hg, ?_⟩
  rw [List.getLast?_append]
  cases hlast' : u'.getLast? with
  | none => simpa [← List.head?_reverse] using hstarts
  | some d =>
    refine hspaces d ?_ (hu' d hlast')
    have hmem := List.mem_of_getLast? hlast'
    rw [← hsource, source_append, source_cons, Piece.source]
    simp [hmem]

/-- An entry of a list is behind the first `n` or among them. -/
theorem take_or_drop {α : Type} (n : Nat) {l r₁ r₂ : List α} {x : α} (h : l = r₁ ++ x :: r₂) :
    (∃ r₃, l.drop n = r₃ ++ x :: r₂ ∧ r₁ = l.take n ++ r₃) ∨
      ∃ r₃, l.take n = r₁ ++ x :: r₃ := by
  rw [← List.take_append_drop n l] at h
  rcases List.append_eq_append_iff.mp h with ⟨r₃, hr₁, hr₃⟩ | ⟨r₃, htake, hr₃⟩
  · exact Or.inl ⟨r₃, hr₃, hr₁⟩
  · cases r₃ with
    | nil => exact Or.inl ⟨[], hr₃.symm, by rw [htake, List.append_nil, List.append_nil]⟩
    | cons p r₃ =>
      obtain ⟨rfl, -⟩ := List.cons.inj hr₃
      exact Or.inr ⟨r₃, htake⟩

/-- Where a word of a run stands in the text of the run. -/
theorem joined_at_word {r₁ r₂ rest : List (List Char × List Char)} {g w g' w' : List Char}
    (h : (g, w) :: rest = r₁ ++ (g', w') :: r₂) :
    ∃ x, w ++ joined rest = x ++ (w' ++ joined r₂) ∧ g ++ x = joined r₁ ++ g' := by
  cases r₁ with
  | nil =>
    obtain ⟨hp, rfl⟩ := List.cons.inj h
    obtain ⟨rfl, rfl⟩ := Prod.mk.inj hp
    exact ⟨[], rfl, by rw [List.append_nil, joined_nil, List.nil_append]⟩
  | cons p r₁ =>
    obtain ⟨rfl, rfl⟩ := List.cons.inj h
    exact ⟨w ++ (joined r₁ ++ g'), by simp, by simp⟩

/-- The scan passes over the gap before a run of two words or more, takes the first four words
    and goes on behind them. -/
theorem match_at_run (halnum : AsciiAlnum isAlnum) {a : List Char}
    (hafter : NoWord isAlnum a.head?)
    (hright : ¬ ∃ g w a', a = g ++ (w ++ a') ∧ Gap g ∧ TitleWord w ∧ NoWord isAlnum a'.head?)
    {rest : List (List Char × List Char)} {g w : List Char} (hg : ∀ c ∈ g, isSpace c = true)
    (hw : TitleWord w) (hrest : GappedWords rest) (htwo : 1 ≤ rest.length) {b : List Char}
    {ps : List (Piece Char)} (hcut : (nameRunRe isAlnum).Cut b ps)
    (hsource : source ps = joined ((g, w) :: rest) ++ a)
    (hbefore : NoWord isAlnum (g.reverse ++ b).head?) (hspaces : SpacesBreak isAlnum (source ps)) :
    ∃ qs b', ps = g.map .kept ++ .hit (w ++ joined (rest.take 3)) :: qs ∧
      source qs = joined (rest.drop 3) ++ a ∧ (nameRunRe isAlnum).Cut b' qs := by
  rw [joined_cons, List.append_assoc, List.append_assoc] at hsource
  obtain ⟨ps', rfl, hps'⟩ := spaces_kept halnum hcut hg hsource
  have hcut' := hcut.suffix
  rw [source_map_kept] at hcut'
  have hspaces' : SpacesBreak isAlnum (joined rest ++ a) := by
    refine fun c hc => hspaces c ?_
    rw [hsource]
    exact List.mem_append_right _ (List.mem_append_right _ hc)
  obtain ⟨qs, rfl, hqs⟩ :=
    hit_at_run halnum hcut' hps' hw hrest htwo hbefore hafter hspaces' hright
  exact ⟨qs, _, rfl, hqs, hcut'.2.2⟩

/-- From the start of a run on, every word of it is in a match that lies in the run, but for a
    last one that is left alone. -/
theorem run_found (halnum : AsciiAlnum isAlnum) {a : List Char}
    (hafter : NoWord isAlnum a.head?)
    (hright : ¬ ∃ g w a', a = g ++ (w ++ a') ∧ Gap g ∧ TitleWord w ∧ NoWord isAlnum a'.head?)
    {r₁ r₂ rest : List (List Char × List Char)} {g w g' w' : List Char}
    (hpos : (g, w) :: rest = r₁ ++ (g', w') :: r₂) (hg : ∀ c ∈ g, isSpace c = true)
    (hw : TitleWord w) (hrest : GappedWords rest) (hlast : r₂ = [] → (rest.length + 1) % 4 ≠ 1)
    {b : List Char} {ps : List (Piece Char)} (hcut : (nameRunRe isAlnum).Cut b ps)
    (hsource : source ps = joined ((g, w) :: rest) ++ a)
    (hbefore : NoWord isAlnum (g.reverse ++ b).head?) (hspaces : SpacesBreak isAlnum (source ps)) :
    ∃ ps₁ x y ps₂, ps = ps₁ ++ .hit (x ++ (w' ++ y)) :: ps₂ ∧
      source ps₁ ++ x = joined r₁ ++ g' ∧ x ++ (w' ++ y) <:+: joined ((g, w) :: rest) := by
  induction hn : rest.length using Nat.strongRecOn generalizing r₁ rest g w b ps with
  | _ n ih =>
    subst hn
    have hlen : r₁.length + r₂.length = rest.length := by
      have := congrArg List.length hpos
      simp only [List.length_cons, List.length_append] at this
      omega
    have htwo : 1 ≤ rest.length := by
      by_contra hone
      have hnil : r₂ = [] := List.length_eq_zero_iff.mp (by omega)
      have := hlast hnil
      omega
    obtain ⟨qs, b', rfl, hqs, hcut'⟩ :=
      match_at_run halnum hafter hright hg hw hrest htwo hcut hsource hbefore hspaces
    have hsplit : joined ((g, w) :: rest) =
        g ++ ((w ++ joined (rest.take 3)) ++ joined (rest.drop 3)) := by
      rw [joined_cons, List.append_assoc, ← joined_append, List.take_append_drop]
    have hspaces' : SpacesBreak isAlnum (source qs) := fun c hc => hspaces c (by simp [hc])
    rcases take_or_drop 4 hpos with ⟨r₃, hr₃, rfl⟩ | ⟨r₃, htake⟩
    · -- the word is behind the match
      rw [List.drop_succ_cons] at hr₃
      rw [List.take_succ_cons]
      have hmore : rest.drop 3 ≠ [] := by simp [hr₃]
      obtain ⟨⟨g₂, w₂⟩, rest', hdrop⟩ := List.exists_cons_of_ne_nil hmore
      have hdropped : GappedWords ((g₂, w₂) :: rest') :=
        fun p hp => hrest p (List.mem_of_mem_drop (hdrop ▸ hp))
      obtain ⟨hgap₂, hw₂⟩ := hdropped _ List.mem_cons_self
      have hfewer : rest.length = rest'.length + 4 := by
        have := congrArg List.length hdrop
        rw [List.length_drop, List.length_cons] at this
        omega
      rw [hdrop] at hr₃ hqs
      have hbefore' : NoWord isAlnum (g₂.reverse ++ b').head? := by
        obtain ⟨z, c, rfl, hspace⟩ := hgap₂.last
        rw [List.reverse_append]
        exact hspaces' c (by rw [hqs]; simp) hspace
      obtain ⟨ps₁, x, y, ps₂, rfl, hplace, hpart⟩ := ih rest'.length (by omega) hr₃ hgap₂.2 hw₂
        (fun p hp => hdropped p (List.mem_cons_of_mem _ hp))
        (fun hnil => by have := hlast hnil; omega) hcut' hqs hbefore' hspaces' rfl
      refine ⟨g.map .kept ++ (.hit (w ++ joined (rest.take 3)) :: ps₁), x, y, ps₂, by simp, ?_, ?_⟩
      · simp only [source_append, source_map_kept, source_cons, Piece.source, joined_append,
          joined_cons, List.append_assoc]
        rw [hplace]
      · rw [hsplit, hdrop]
        exact hpart.trans ⟨g ++ (w ++ joined (rest.take 3)), [], by simp⟩
    · -- the word is in the match
      obtain ⟨x, hmatch, hplace⟩ := joined_at_word htake
      refine ⟨g.map .kept, x, joined r₃, qs, by rw [hmatch], by rw [source_map_kept, hplace], ?_⟩
      rw [← hmatch, hsplit]
      exact ⟨g, joined (rest.drop 3), by simp⟩

/-! ## What is reported -/

theorem lowered_part {v w : List Char} (h : v <:+: w) : lowered v <:+: lowered w := h.map _

/-- A part of a text without a phrase is not excused. -/
theorem isExcused_eq_false {v w : List Char} (h : v <:+: w)
    (hphrase : ∀ phrase ∈ allowlistPhrases, ¬ phrase.toList <:+: lowered w) :
    isExcused v = false := by
  have hnone : ∀ phrase ∈ allowlistPhrases, ¬ phrase.toList <:+: lowered v :=
    fun phrase hmem hpart => hphrase phrase hmem (hpart.trans (lowered_part h))
  have hmention : mentionsPhrase v = false := by
    refine List.any_eq_false.mpr fun phrase hmem => ?_
    simpa using hnone phrase hmem
  have hequal : allowlistPhrases.any (fun phrase => phrase.toList == lowered v) = false := by
    refine List.any_eq_false.mpr fun phrase hmem heq => hnone phrase hmem ?_
    exact ⟨[], [], by rw [eq_of_beq heq, List.nil_append, List.append_nil]⟩
  rw [isExcused, hequal, hmention]
  rfl

/-- A match is a run in the text. -/
theorem runIn_of_hit (halnum : AsciiAlnum isAlnum) {text w : List Char}
    {ps₁ ps₂ : List (Piece Char)}
    (hps : scan (nameRunRe isAlnum) [] 0 text = ps₁ ++ .hit w :: ps₂) :
    ∃ run, RunIn isAlnum text (source ps₁) run (source ps₂) ∧ 2 ≤ run.length ∧ run.length ≤ 4 ∧
      w = joined run := by
  have hsource := source_scan (nameRunRe_consuming halnum) text
  have hcut := cut_scan (nameRunRe_consuming halnum) text
  rw [hps] at hsource hcut
  obtain ⟨hbefore, hafter, first, rest, rfl, hfirst, hrest, htwo, hfour⟩ :=
    (nameRunRe_spells halnum).mp hcut.spells.2
  rw [List.append_nil, List.head?_reverse] at hbefore
  refine ⟨([], first) :: rest, ⟨?_, ⟨first, rest, rfl, hfirst, hrest⟩, hbefore, hafter⟩, ?_, ?_, ?_⟩
  · rw [← hsource, source_append, source_cons, Piece.source, joined_cons]
    simp
  · rw [List.length_cons]
    omega
  · rw [List.length_cons]
    omega
  · rw [joined_cons]
    rfl

/-- What is reported is two to four Title words of the text with whitespace between them, and
    is reported once. Of a maximal run of two words or more in which no allowlisted phrase
    occurs, each word is in a name that is reported, except a last one, where the run has one
    word more than a multiple of four. -/
theorem probable_names (halnum : AsciiAlnum isAlnum) (text : String)
    (hascii : ∀ c ∈ text.toList, c.toNat < 128) :
    (∀ name ∈ findProbableNames isAlnum text, ∃ before run after,
      RunIn isAlnum text.toList before run after ∧ 2 ≤ run.length ∧ run.length ≤ 4 ∧
        name.toList = joined run) ∧
    (findProbableNames isAlnum text).Nodup ∧
    ∀ before run after, MaximalRun isAlnum text.toList before run after → 2 ≤ run.length →
      (∀ phrase ∈ allowlistPhrases, ¬ phrase.toList <:+: lowered (joined run)) →
      ∀ r₁ g w r₂, run = r₁ ++ (g, w) :: r₂ → ¬ (r₂ = [] ∧ run.length % 4 = 1) →
        ∃ name ∈ findProbableNames isAlnum text, ∃ s x y t, name.toList = x ++ (w ++ y) ∧
          text.toList = s ++ (name.toList ++ t) ∧ s ++ x = before ++ (joined r₁ ++ g) := by
  refine ⟨fun name hname => ?_, ?_,
    fun before run after hrun htwo hphrase r₁ g w r₂ hpos hlast => ?_⟩
  · obtain ⟨w, hw, -, rfl⟩ := mem_findProbableNames.mp hname
    obtain ⟨ps₁, ps₂, hps⟩ := mem_findall.mp hw
    obtain ⟨run, hrun, htwo, hfour, rfl⟩ := runIn_of_hit halnum hps
    exact ⟨_, run, _, hrun, htwo, hfour, String.toList_ofList⟩
  · rw [findProbableNames]
    split
    · exact List.nodup_nil
    · exact nodup_foldl_keepName List.nodup_nil
  · have hspaces := halnum.spacesBreak hascii
    have hsource := source_scan (nameRunRe_consuming halnum) text.toList
    have hcut := cut_scan (nameRunRe_consuming halnum) text.toList
    obtain ⟨ps₁, ps₂, hps, hbefore, hrest⟩ := hrun.start halnum hspaces hcut hsource
    obtain ⟨first, rest, rfl, hfirst, hgapped⟩ := hrun.words
    rw [hps] at hcut
    have hstarts :
        NoWord isAlnum (([] : List Char).reverse ++ ((source ps₁).reverse ++ [])).head? := by
      rw [List.reverse_nil, List.nil_append, List.append_nil, List.head?_reverse, hbefore]
      exact hrun.starts
    obtain ⟨qs₁, x, y, qs₂, rfl, hplace, hpart⟩ := run_found halnum hrun.stops hrun.right hpos
      (by simp) hfirst hgapped (fun hnil hmod => hlast ⟨hnil, hmod⟩) hcut.suffix hrest hstarts
      (fun c hc => hspaces c (by rw [← hsource, hps, source_append]; simp [hc]))
    refine ⟨String.ofList (x ++ (w ++ y)), mem_findProbableNames.mpr ⟨_, ?_,
      isExcused_eq_false hpart hphrase, rfl⟩, source (ps₁ ++ qs₁), x, y, source qs₂,
      String.toList_ofList, ?_, ?_⟩
    · exact mem_findall.mpr ⟨ps₁ ++ qs₁, qs₂, by rw [hps, List.append_assoc]⟩
    · rw [← hsource, hps, String.toList_ofList]
      simp [Piece.source]
    · rw [source_append, List.append_assoc, hplace, hbefore]

theorem alBo_run : MaximalRun Char.isAlphanum "Al Bo".toList []
    [([], ['A', 'l']), ([' '], ['B', 'o'])] [] where
  text_eq := by decide
  words := ⟨['A', 'l'], [([' '], ['B', 'o'])], rfl,
    ⟨'A', ['l'], rfl, by decide, by decide, forall_mem_of_all (by decide)⟩,
    fun p hp => by
      obtain rfl := List.mem_singleton.mp hp
      exact ⟨⟨by decide, forall_mem_of_all (by decide)⟩, 'B', ['o'], rfl, by decide, by decide,
        forall_mem_of_all (by decide)⟩⟩
  starts := rfl
  stops := rfl
  left := by
    rintro ⟨b, w, g, h, hw, -⟩
    exact hw.ne_nil (List.append_eq_nil_iff.mp (List.append_eq_nil_iff.mp h.symm).2).1
  right := by
    rintro ⟨g, w, a, h, hg, -⟩
    exact hg.1 (List.append_eq_nil_iff.mp h.symm).1

theorem alBo_named : ∃ name ∈ findProbableNames Char.isAlphanum "Al Bo", ∃ s x y t,
    name.toList = x ++ (['A', 'l'] ++ y) ∧ "Al Bo".toList = s ++ (name.toList ++ t) ∧
      s ++ x = [] :=
  (probable_names (fun _ _ => rfl) "Al Bo" (forall_mem_of_all (by decide))).2.2 [] _ [] alBo_run
    (by decide) (by decide) [] [] ['A', 'l'] _ rfl (by decide)

end

end LinkedOut
