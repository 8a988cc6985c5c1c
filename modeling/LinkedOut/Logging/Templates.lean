/-
  What redaction does to the conversions of a template.

  A substitution that puts a text in brackets for each match leaves a template that can be
  read exactly when no match takes part of a conversion, other than of its key: `Rewritten`
  says what is read then (`lex_replaced_iff`). Matches that take whole conversions take
  them away; a match that begins in a conversion and takes its type leaves a `[` where a type
  should stand.
-/
import LinkedOut.Logging.Formatting
import LinkedOut.Logging.Redaction

namespace LinkedOut

open Regex

/-- What becomes of the segments of a template: matches take whole segments or letters of
    keys. -/
inductive Rewritten (repl : List Char) :
    List Segment → List (Piece Char) → List Segment → Prop
  | nil : Rewritten repl [] [] []
  | letter (c : Char) {segments segments' : List Segment} {ps : List (Piece Char)}
      (h : Rewritten repl segments ps segments') :
      Rewritten repl (.letter c :: segments) (.kept c :: ps) (.letter c :: segments')
  | plain (spec : List Char) (type : Char) {segments segments' : List Segment}
      {ps : List (Piece Char)} (h : Rewritten repl segments ps segments') :
      Rewritten repl (.conversion ⟨none, spec, type⟩ :: segments)
        (('%' :: (spec ++ [type])).map .kept ++ ps) (.conversion ⟨none, spec, type⟩ :: segments')
  | keyed (key : List (Piece Char)) (spec : List Char) (type : Char)
      {segments segments' : List Segment} {ps : List (Piece Char)}
      (h : Rewritten repl segments ps segments') :
      Rewritten repl (.conversion ⟨some (source key), spec, type⟩ :: segments)
        (.kept '%' :: .kept '(' :: (key ++ .kept ')' :: ((spec ++ [type]).map .kept ++ ps)))
        (.conversion ⟨some (replaced repl key), spec, type⟩ :: segments')
  | taken (taken : List Segment) {segments segments' : List Segment} {ps : List (Piece Char)}
      (h : Rewritten repl segments ps segments') :
      Rewritten repl (taken ++ segments) (.hit (segmentsText taken) :: ps)
        (repl.map .letter ++ segments')

/-- A match that can take part of no conversion other than of its key: it has no
    parentheses, and an `@` behind every `%`. -/
structure Whole (w : List Char) : Prop where
  parens : ∀ c ∈ w, c ≠ '(' ∧ c ≠ ')'
  percent : ∀ u v, w = u ++ '%' :: v → '@' ∈ v

/-- A text that can stand in a template. -/
structure Bracketed (repl : List Char) : Prop where
  opens : ∃ w, repl = '[' :: w
  parens : ∀ c ∈ repl, c ≠ '(' ∧ c ≠ ')'
  percent : '%' ∉ repl

/-- Every match is such a match. -/
def WholeHits (ps : List (Piece Char)) : Prop := ∀ w, .hit w ∈ ps → w ≠ [] ∧ Whole w

section

variable {repl : List Char}

/-! ## Keys -/

theorem depthAfter_of_parens {w : List Char} (hw : ∀ c ∈ w, c ≠ '(' ∧ c ≠ ')') (depth : Nat) :
    depthAfter depth w = some depth := by
  induction w with
  | nil => rfl
  | cons c w ih =>
    obtain ⟨hopen, hclose⟩ := hw c List.mem_cons_self
    have hstep : depthStep depth c = some depth := by
      unfold depthStep
      rw [if_neg hopen, if_neg hclose]
    rw [depthAfter_cons, hstep]
    exact ih fun c hc => hw c (List.mem_cons_of_mem _ hc)

/-- Matches do not change how deep a key goes. -/
theorem depthAfter_replaced (hrepl : Bracketed repl) {ps : List (Piece Char)}
    (hps : WholeHits ps) (depth : Nat) :
    depthAfter depth (replaced repl ps) = depthAfter depth (source ps) := by
  induction ps generalizing depth with
  | nil => rfl
  | cons p ps ih =>
    have hrest : WholeHits ps := fun w hw => hps w (List.mem_cons_of_mem _ hw)
    rw [replaced_cons, source_cons, depthAfter_append, depthAfter_append]
    have hp : depthAfter depth (p.replaced repl) = depthAfter depth p.source := by
      cases p with
      | kept c => rfl
      | hit w =>
        exact (depthAfter_of_parens hrepl.parens depth).trans
          (depthAfter_of_parens (hps w List.mem_cons_self).2.parens depth).symm
    rw [hp]
    exact congrArg _ (funext fun d => ih hrest d)

/-- A parenthesis is in no match. -/
theorem kept_paren {ps : List (Piece Char)} (hps : WholeHits ps) {s t : List Char}
    (hsource : source ps = s ++ ')' :: t) :
    ∃ ps₁ ps₂, ps = ps₁ ++ .kept ')' :: ps₂ ∧ source ps₁ = s ∧ source ps₂ = t := by
  have hnone : ∀ {ps₁ ps₂ : List (Piece Char)} {u v : List Char},
      ps = ps₁ ++ .hit (u ++ v) :: ps₂ → v ≠ [] → ')' :: t = v ++ source ps₂ → False := by
    rintro ps₁ ps₂ u v rfl hv ht
    obtain ⟨c, v, rfl⟩ := List.exists_cons_of_ne_nil hv
    obtain ⟨rfl, -⟩ := List.cons.inj ht
    have hhit : .hit (u ++ ')' :: v) ∈ ps₁ ++ .hit (u ++ ')' :: v) :: ps₂ := by simp
    exact ((hps _ hhit).2.parens ')' (by simp)).2 rfl
  rcases source_split hsource with ⟨ps₁, ps₂, rfl, hs, ht⟩ | ⟨ps₁, u, v, ps₂, hps', -, hv, -, ht⟩
  · cases ps₂ with
    | nil => cases ht
    | cons p ps₂ =>
      cases p with
      | kept c =>
        obtain ⟨rfl, hrest⟩ := List.cons.inj ht
        exact ⟨ps₁, ps₂, rfl, hs, hrest⟩
      | hit w => exact (hnone (u := []) rfl (hps w (by simp)).1 ht.symm).elim
  · exact (hnone hps' hv ht).elim

/-! ## Reading what is left -/

theorem WholeHits.append {ps qs : List (Piece Char)} (h : WholeHits (ps ++ qs)) :
    WholeHits ps ∧ WholeHits qs :=
  ⟨fun w hw => h w (List.mem_append_left _ hw), fun w hw => h w (List.mem_append_right _ hw)⟩

theorem WholeHits.cons {p : Piece Char} {ps : List (Piece Char)} (h : WholeHits (p :: ps)) :
    WholeHits ps := fun w hw => h w (List.mem_cons_of_mem _ hw)

/-- What a rewritten template reads: it is well formed, and its text is the replaced one. -/
theorem Rewritten.sound (hrepl : Bracketed repl) {segments segments' : List Segment}
    {ps : List (Piece Char)} (h : Rewritten repl segments ps segments') (hps : WholeHits ps)
    (hwell : ∀ s ∈ segments, s.WellFormed) :
    (∀ s ∈ segments', s.WellFormed) ∧ segmentsText segments' = replaced repl ps := by
  induction h with
  | nil => exact ⟨hwell, rfl⟩
  | @letter c segments segments' ps h ih =>
    obtain ⟨hwell', htext⟩ := ih hps.cons fun s hs => hwell s (List.mem_cons_of_mem _ hs)
    refine ⟨fun s hs => ?_, by rw [segmentsText_cons, htext]; rfl⟩
    rcases List.mem_cons.mp hs with rfl | hs
    · exact hwell _ List.mem_cons_self
    · exact hwell' s hs
  | @plain spec type segments segments' ps h ih =>
    obtain ⟨hwell', htext⟩ := ih hps.append.2 fun s hs => hwell s (List.mem_cons_of_mem _ hs)
    constructor
    · intro s hs
      rcases List.mem_cons.mp hs with rfl | hs
      · exact hwell _ List.mem_cons_self
      · exact hwell' s hs
    · rw [segmentsText_cons, htext, replaced_append, replaced_map_kept]
      rfl
  | @keyed key spec type segments segments' ps h ih =>
    have hkey : WholeHits key := hps.cons.cons.append.1
    have hrest : WholeHits ps := hps.cons.cons.append.2.cons.append.2
    obtain ⟨hwell', htext⟩ := ih hrest fun s hs => hwell s (List.mem_cons_of_mem _ hs)
    obtain ⟨hdepth, hspec, hreads, htype⟩ := hwell _ List.mem_cons_self
    constructor
    · intro s hs
      rcases List.mem_cons.mp hs with rfl | hs
      · refine ⟨fun w hw => ?_, hspec, hreads, htype⟩
        rw [← Option.some.inj hw, depthAfter_replaced hrepl hkey]
        exact hdepth _ rfl
      · exact hwell' s hs
    · rw [segmentsText_cons, htext]
      simp [Segment.text, Conversion.text, keyText, Piece.replaced]
  | @taken taken segments segments' ps h ih =>
    obtain ⟨hwell', htext⟩ := ih hps.cons fun s hs => hwell s (List.mem_append_right _ hs)
    constructor
    · intro s hs
      rcases List.mem_append.mp hs with hs | hs
      · obtain ⟨c, hc, rfl⟩ := List.mem_map.mp hs
        exact fun heq => hrepl.percent (heq ▸ hc)
      · exact hwell' s hs
    · rw [segmentsText_append, segmentsText_letters, htext]
      rfl

/-- A match that starts with a segment does not end in it. -/
theorem Whole.not_part {w v : List Char} (hw : Whole w) (hne : w ≠ []) (hv : v ≠ [])
    {s : Segment} (hs : s.WellFormed) (h : s.text = w ++ v) : False := by
  obtain ⟨v, x, rfl⟩ := (List.eq_nil_or_concat' v).resolve_left hv
  obtain ⟨y, w, rfl⟩ := List.exists_cons_of_ne_nil hne
  cases s with
  | letter c =>
    have hlen := congrArg List.length h
    simp [Segment.text] at hlen
  | conversion k =>
    obtain ⟨key, spec, type⟩ := k
    obtain ⟨rfl, hrest⟩ := List.cons.inj h
    have hat : '@' ∈ w := hw.percent [] w rfl
    have hbody : keyText key ++ spec = w ++ v := by
      have hlast : keyText key ++ spec ++ [type] = w ++ v ++ [x] := by simpa using hrest
      exact (List.append_inj' hlast rfl).1
    cases key with
    | none =>
      have hmem : '@' ∈ spec := by
        rw [keyText, List.nil_append] at hbody
        rw [hbody]
        exact List.mem_append_left _ hat
      exact absurd (hs.spec _ hmem) (by decide)
    | some key =>
      obtain ⟨z, w, rfl⟩ := List.exists_cons_of_ne_nil (List.ne_nil_of_mem hat)
      obtain ⟨rfl, -⟩ := List.cons.inj hbody
      exact (hw.parens '(' (by simp)).1 rfl

/-- A match that starts a segment takes whole segments. -/
theorem Whole.segments {w t : List Char} (hw : Whole w) {segments : List Segment}
    (hwell : ∀ s ∈ segments, s.WellFormed) (h : segmentsText segments = w ++ t) :
    ∃ taken rest, segments = taken ++ rest ∧ segmentsText taken = w ∧ segmentsText rest = t := by
  induction segments generalizing w with
  | nil =>
    obtain ⟨rfl, rfl⟩ := List.append_eq_nil_iff.mp h.symm
    exact ⟨[], [], rfl, rfl, rfl⟩
  | cons s segments ih =>
    by_cases hnil : w = []
    · subst hnil
      exact ⟨[], s :: segments, rfl, rfl, h⟩
    rw [segmentsText_cons] at h
    rcases List.append_eq_append_iff.mp h with ⟨w', rfl, hrest⟩ | ⟨v, hv, hrest⟩
    · have hw' : Whole w' := by
        refine ⟨fun c hc => hw.parens c (List.mem_append_right _ hc), fun u v huv => ?_⟩
        exact hw.percent (s.text ++ u) v (by rw [huv, List.append_assoc])
      obtain ⟨taken, rest, rfl, rfl, ht⟩ :=
        ih hw' (fun s hs => hwell s (List.mem_cons_of_mem _ hs)) hrest
      exact ⟨s :: taken, rest, rfl, rfl, ht⟩
    · -- the match ends in the segment, so at its end
      have hend : v = [] := by
        by_contra hne
        exact hw.not_part hnil hne (hwell s List.mem_cons_self) hv
      subst hend
      rw [List.append_nil] at hv
      exact ⟨[s], segments, rfl, by rw [← hv]; simp [segmentsText], hrest.symm⟩

theorem lex_letters {w : List Char} (hw : '%' ∉ w) (t : List Char) :
    lex .text (w ++ t) = (lex .text t).map (w.map .letter ++ ·) := by
  have hwell : ∀ s ∈ w.map Segment.letter, s.WellFormed := by
    intro s hs
    obtain ⟨c, hc, rfl⟩ := List.mem_map.mp hs
    exact fun heq => hw (heq ▸ hc)
  have hread := lex_segmentsText hwell t
  rw [segmentsText_letters] at hread
  exact hread

/-- A bracket is no part of a specification and no type. -/
theorem lex_spec_bracket (hrepl : Bracketed repl) (key : Option (List Char))
    (read t : List Char) : lex (.spec key read) (repl ++ t) = none := by
  obtain ⟨w, rfl⟩ := hrepl.opens
  rw [List.cons_append, lex_cons]
  rfl

/-- Where the rest of a template can still be read, nothing of a specification or a type is
    in a match. -/
theorem spec_kept (hrepl : Bracketed repl) {key : Option (List Char)} {read spec t : List Char}
    {type : Char} (hspec : ∀ c ∈ spec, isSpecChar c = true) (htype : isConversionType type = true)
    (hreads : (readSpec (read ++ spec)).isSome = true) {ps : List (Piece Char)}
    (hsource : source ps = spec ++ type :: t) {segments : List Segment}
    (h : lex (.spec key read) (replaced repl ps) = some segments) :
    ∃ ps' segments', ps = (spec ++ [type]).map .kept ++ ps' ∧ source ps' = t ∧
      lex .text (replaced repl ps') = some segments' ∧
      segments = .conversion ⟨key, read ++ spec, type⟩ :: segments' := by
  induction spec generalizing read ps with
  | nil =>
    rcases ps with _ | ⟨c | w, ps⟩
    · cases hsource
    · obtain ⟨rfl, hrest⟩ := List.cons.inj hsource
      have hread : lex (.spec key read) ([] ++ c :: replaced repl ps) =
          (lex .text (replaced repl ps)).map (.conversion ⟨key, read ++ [], c⟩ :: ·) :=
        lex_spec hspec hreads htype
      rw [replaced_cons, Piece.replaced, List.singleton_append] at h
      rw [List.nil_append, h] at hread
      obtain ⟨segments', hlex, rfl⟩ := Option.map_eq_some_iff.mp hread.symm
      exact ⟨ps, segments', rfl, hrest, hlex, rfl⟩
    · rw [replaced_cons, Piece.replaced, lex_spec_bracket hrepl] at h
      cases h
  | cons x spec ih =>
    rcases ps with _ | ⟨c | w, ps⟩
    · cases hsource
    · obtain ⟨rfl, hrest⟩ := List.cons.inj hsource
      have hstep : lex (.spec key (read ++ [c])) (replaced repl ps) = some segments := by
        rw [replaced_cons, Piece.replaced, List.singleton_append, lex_cons, readChar, readSpecChar,
          if_pos (hspec c List.mem_cons_self)] at h
        simpa using h
      obtain ⟨ps', segments', rfl, ht, hlex, rfl⟩ :=
        ih (fun c hc => hspec c (List.mem_cons_of_mem _ hc)) (by simpa using hreads) hrest hstep
      exact ⟨ps', segments', rfl, ht, hlex, by simp⟩
    · rw [replaced_cons, Piece.replaced, lex_spec_bracket hrepl] at h
      cases h

/-- With the placeholder for its matches it still starts with no parenthesis. -/
theorem head_replaced_spec (hrepl : Bracketed repl) {spec t : List Char} {type : Char}
    (hspec : ∀ c ∈ spec, isSpecChar c = true) (htype : isConversionType type = true)
    {ps : List (Piece Char)} (hsource : source ps = spec ++ type :: t) :
    ∀ c, (replaced repl ps).head? = some c → c ≠ '(' := by
  intro c hc
  rcases ps with _ | ⟨x | w, ps⟩
  · cases hc
  · refine head_spec (t := t) hspec htype c ?_
    rw [← hsource]
    exact hc
  · obtain ⟨w, rfl⟩ := hrepl.opens
    obtain rfl : '[' = c := Option.some.inj hc
    decide

/-- A `%` that is kept starts a conversion of which no part is in a match, other than of its
    key. -/
theorem conversion_kept (hrepl : Bracketed repl) {k : Conversion} (hk : k.WellFormed)
    {ps : List (Piece Char)} (hps : WholeHits ps) {t : List Char}
    (hsource : source ps = keyText k.key ++ (k.spec ++ k.type :: t)) {segments : List Segment}
    (h : lex .start (replaced repl ps) = some segments) :
    ∃ ps' segments', WholeHits ps' ∧ ps'.length < ps.length ∧ source ps' = t ∧
      lex .text (replaced repl ps') = some segments' ∧
      ∀ {rest}, Rewritten repl rest ps' segments' →
        Rewritten repl (.conversion k :: rest) (.kept '%' :: ps) segments := by
  obtain ⟨key, spec, type⟩ := k
  obtain ⟨hkey, hspec, hreads, htype⟩ := hk
  cases key with
  | none =>
    have hsource' : source ps = spec ++ type :: t := hsource
    rw [lex_start (head_replaced_spec hrepl hspec htype hsource')] at h
    have hreads' : (readSpec ([] ++ spec)).isSome = true := hreads
    obtain ⟨ps', segments', rfl, ht, hlex, rfl⟩ :=
      spec_kept hrepl hspec htype hreads' hsource' h
    refine ⟨ps', segments', hps.append.2, ?_, ht, hlex, fun hrest => ?_⟩
    · simp only [List.length_append, List.length_map, List.length_cons]
      omega
    · exact .plain spec type hrest
  | some key =>
    match ps, hsource, h with
    | .hit w :: ps, hsource, h =>
      obtain ⟨hne, hw⟩ := hps w List.mem_cons_self
      obtain ⟨c, w, rfl⟩ := List.exists_cons_of_ne_nil hne
      obtain ⟨rfl, -⟩ := List.cons.inj hsource
      exact absurd rfl (hw.parens '(' List.mem_cons_self).1
    | .kept c :: ps, hsource, h =>
      obtain ⟨rfl, hrest⟩ := List.cons.inj hsource
      have hclose : source ps = key ++ ')' :: (spec ++ type :: t) := hrest.trans (by simp)
      obtain ⟨kps, ps, rfl, rfl, ht⟩ := kept_paren hps.cons hclose
      have hwhole : WholeHits kps := hps.cons.append.1
      have hdepth : depthAfter 0 (replaced repl kps) = some 0 := by
        rw [depthAfter_replaced hrepl hwhole]
        exact hkey _ rfl
      rw [replaced_cons, Piece.replaced, List.singleton_append, lex_open, replaced_append,
        replaced_cons, Piece.replaced, List.singleton_append, lex_key hdepth,
        List.nil_append] at h
      have hreads' : (readSpec ([] ++ spec)).isSome = true := hreads
      obtain ⟨ps', segments', rfl, ht', hlex, rfl⟩ :=
        spec_kept hrepl hspec htype hreads' ht h
      refine ⟨ps', segments', hps.cons.append.2.cons.append.2, ?_, ht', hlex, fun hrest => ?_⟩
      · simp only [List.length_cons, List.length_append]
        omega
      · exact .keyed kps spec type hrest

/-- If the replaced text can still be read, it reads as rewritten. -/
theorem rewritten_of_lex (hrepl : Bracketed repl) {ps : List (Piece Char)} (hps : WholeHits ps)
    {segments segments' : List Segment} (hwell : ∀ s ∈ segments, s.WellFormed)
    (hsource : source ps = segmentsText segments)
    (h : lex .text (replaced repl ps) = some segments') :
    Rewritten repl segments ps segments' := by
  induction hn : ps.length using Nat.strongRecOn generalizing ps segments segments' with
  | _ n ih =>
    subst hn
    match ps, hps, hsource, h with
    | [], _, hsource, h =>
      have hnil : segments = [] := by
        cases segments with
        | nil => rfl
        | cons s segments => cases s <;> cases hsource
      subst hnil
      obtain rfl : [] = segments' := Option.some.inj h
      exact .nil
    | .hit w :: ps, hps, hsource, h =>
      obtain ⟨taken, rest, rfl, rfl, ht⟩ :=
        (hps w List.mem_cons_self).2.segments hwell hsource.symm
      rw [replaced_cons, Piece.replaced, lex_letters hrepl.percent] at h
      obtain ⟨segments'', hlex, rfl⟩ := Option.map_eq_some_iff.mp h
      exact .taken taken (ih ps.length (by simp) hps.cons
        (fun s hs => hwell s (List.mem_append_right _ hs)) ht.symm hlex rfl)
    | .kept c :: ps, hps, hsource, h =>
      cases segments with
      | nil => cases hsource
      | cons s segments =>
        have hwell' : ∀ s ∈ segments, s.WellFormed :=
          fun s hs => hwell s (List.mem_cons_of_mem _ hs)
        rw [replaced_cons, Piece.replaced, List.singleton_append] at h
        cases s with
        | letter x =>
          obtain ⟨rfl, hrest⟩ := List.cons.inj hsource
          rw [lex_letter (hwell _ List.mem_cons_self)] at h
          obtain ⟨segments'', hlex, rfl⟩ := Option.map_eq_some_iff.mp h
          exact .letter c (ih ps.length (by simp) hps.cons hwell' hrest hlex rfl)
        | conversion k =>
          obtain ⟨rfl, hrest⟩ := List.cons.inj hsource
          have hbody : source ps = keyText k.key ++ (k.spec ++ k.type :: segmentsText segments) :=
            hrest.trans (by simp [segmentsText, List.flatMap_def])
          rw [lex_percent] at h
          obtain ⟨ps', segments'', hps', hlt, ht, hlex, hbuild⟩ :=
            conversion_kept hrepl (hwell _ List.mem_cons_self) hps.cons hbody h
          exact hbuild (ih ps'.length (by simp; omega) hps' hwell' ht hlex rfl)

/-- A replaced template can be read exactly as it is rewritten. -/
theorem lex_replaced_iff (hrepl : Bracketed repl) {ps : List (Piece Char)} (hps : WholeHits ps)
    {segments segments' : List Segment} (hsource : lex .text (source ps) = some segments) :
    lex .text (replaced repl ps) = some segments' ↔ Rewritten repl segments ps segments' := by
  obtain ⟨htext, hwell⟩ := lex_eq_some.mp hsource
  constructor
  · exact rewritten_of_lex hrepl hps hwell htext
  · intro h
    obtain ⟨hwell', htext'⟩ := h.sound hrepl hps hwell
    exact lex_eq_some.mpr ⟨htext'.symm, hwell'⟩

/-! ## Matches without `%` -/

/-- Two readers that stand alike, with other keys. -/
inductive Alike : Mode → Mode → Prop
  | text : Alike .text .text
  | start : Alike .start .start
  | key (depth : Nat) (read read' : List Char) : Alike (.key depth read) (.key depth read')
  | spec (key key' : Option (List Char)) (read : List Char) :
      Alike (.spec key read) (.spec key' read)

theorem readSpecChar_alike {key : Option (List Char)} (key' : Option (List Char))
    {read : List Char} {c : Char} {next : Mode} {out : List Segment}
    (hread : readSpecChar key read c = some (next, out)) :
    ∃ next' out', readSpecChar key' read c = some (next', out') ∧ Alike next next' := by
  unfold readSpecChar at hread ⊢
  split at hread
  · rename_i hc
    cases hread
    exact ⟨_, _, if_pos hc, .spec key key' _⟩
  · rename_i hc
    rw [if_neg hc]
    split at hread
    · rename_i htype
      cases hread
      exact ⟨_, _, if_pos htype, .text⟩
    · cases hread

theorem Alike.readChar {mode mode' next : Mode} {c : Char} {out : List Segment}
    (h : Alike mode mode') (hread : readChar mode c = some (next, out)) :
    ∃ next' out', LinkedOut.readChar mode' c = some (next', out') ∧ Alike next next' := by
  cases h with
  | text => exact ⟨next, out, hread, by
      rw [LinkedOut.readChar] at hread
      split at hread
      · cases hread
        exact .start
      · cases hread
        exact .text⟩
  | start =>
    rw [LinkedOut.readChar] at hread ⊢
    split at hread
    · rename_i hc
      cases hread
      exact ⟨_, _, if_pos hc, .key 0 [] []⟩
    · rename_i hc
      rw [if_neg hc]
      exact readSpecChar_alike none hread
  | key depth read read' =>
    rw [LinkedOut.readChar] at hread ⊢
    split at hread
    · rename_i hc
      cases hread
      exact ⟨_, _, if_pos hc, .key _ _ _⟩
    · rename_i hopen
      rw [if_neg hopen]
      split at hread
      · rename_i hc
        cases hread
        refine ⟨_, _, if_pos hc, ?_⟩
        cases depth with
        | zero => exact .spec _ _ []
        | succ depth => exact .key _ _ _
      · rename_i hclose
        cases hread
        exact ⟨_, _, if_neg hclose, .key _ _ _⟩
  | spec key key' read => exact readSpecChar_alike key' hread

/-- Without parentheses a key goes on. -/
theorem isSome_lex_key (depth : Nat) {w : List Char} (hw : ∀ c ∈ w, c ≠ '(' ∧ c ≠ ')')
    (read t : List Char) :
    (lex (.key depth read) (w ++ t)).isSome = (lex (.key depth (read ++ w)) t).isSome := by
  induction w generalizing read with
  | nil => rw [List.nil_append, List.append_nil]
  | cons c w ih =>
    obtain ⟨hopen, hclose⟩ := hw c List.mem_cons_self
    rw [List.cons_append, lex_cons, readChar, if_neg hopen, if_neg hclose]
    change ((lex (.key depth (read ++ [c])) (w ++ t)).map _).isSome = _
    rw [Option.isSome_map, ih fun c hc => hw c (List.mem_cons_of_mem _ hc)]
    simp

/-- Where matches have no `%`, a template that can be read with them replaced can be read with
    them. -/
theorem lex_source_of_replaced (hrepl : Bracketed repl) {ps : List (Piece Char)}
    (hps : ∀ w, .hit w ∈ ps → ∀ c ∈ w, c ≠ '%' ∧ c ≠ '(' ∧ c ≠ ')') {mode mode' : Mode}
    (hmode : Alike mode mode') (h : (lex mode (replaced repl ps)).isSome = true) :
    (lex mode' (source ps)).isSome = true := by
  induction ps generalizing mode mode' with
  | nil =>
    cases hmode with
    | text => rfl
    | start => cases h
    | key depth read read' => cases h
    | spec key key' read => cases h
  | cons p ps ih =>
    have ih' := fun {mode mode' : Mode} => @ih (fun w hw => hps w (List.mem_cons_of_mem _ hw))
      mode mode'
    rw [replaced_cons] at h
    rw [source_cons]
    cases p with
    | kept c =>
      rw [Piece.replaced, List.singleton_append, lex_cons] at h
      rw [Piece.source, List.singleton_append, lex_cons]
      cases hread : readChar mode c with
      | none =>
        rw [hread] at h
        cases h
      | some r =>
        obtain ⟨next, out⟩ := r
        obtain ⟨next', out', hread', hnext⟩ := hmode.readChar hread
        rw [hread] at h
        rw [hread']
        change ((lex next (replaced repl ps)).map _).isSome = true at h
        change ((lex next' (source ps)).map _).isSome = true
        rw [Option.isSome_map] at h ⊢
        exact ih' hnext h
    | hit w =>
      have hw := hps w List.mem_cons_self
      rw [Piece.replaced] at h
      rw [Piece.source]
      cases hmode with
      | text =>
        have hpercent : '%' ∉ w := fun hmem => (hw '%' hmem).1 rfl
        rw [lex_letters hrepl.percent, Option.isSome_map] at h
        rw [lex_letters hpercent, Option.isSome_map]
        exact ih' .text h
      | start =>
        obtain ⟨v, rfl⟩ := hrepl.opens
        rw [List.cons_append, lex_cons] at h
        cases h
      | key depth read read' =>
        rw [isSome_lex_key depth hrepl.parens] at h
        rw [isSome_lex_key depth fun c hc => (hw c hc).2]
        exact ih' (.key _ _ _) h
      | spec key key' read =>
        rw [lex_spec_bracket hrepl] at h
        cases h

end

/-! ## The two patterns -/

theorem redactedEmail_bracketed : Bracketed redactedEmail :=
  ⟨⟨_, rfl⟩, forall_mem_of_all (by decide), by decide⟩

theorem redactedPhone_bracketed : Bracketed redactedPhone :=
  ⟨⟨_, rfl⟩, forall_mem_of_all (by decide), by decide⟩

theorem EmailWord.whole {w : List Char} (h : EmailWord w) : Whole w := by
  refine ⟨fun c hc => ?_, fun u v huv => ?_⟩
  · have hchar := h.chars c hc
    constructor
    · rintro rfl
      exact absurd hchar (by decide)
    · rintro rfl
      exact absurd hchar (by decide)
  · obtain @⟨user, domain, top, -, -, -, hdomain, -, htop⟩ := h
    rcases List.append_eq_append_iff.mp huv with ⟨s, rfl, hs⟩ | ⟨s, rfl, hs⟩
    · -- no `%` stands behind the `@`
      cases s with
      | nil => cases hs
      | cons x s =>
        obtain ⟨rfl, hs'⟩ := List.cons.inj hs
        have hmem : '%' ∈ domain ++ '.' :: top := by
          rw [hs']
          exact List.mem_append_right s List.mem_cons_self
        rw [List.mem_append, List.mem_cons] at hmem
        rcases hmem with hmem | hmem | hmem
        · exact absurd (hdomain _ hmem) (by decide)
        · exact absurd hmem (by decide)
        · exact absurd (htop _ hmem) (by decide)
    · cases s with
      | nil => cases hs
      | cons x s =>
        obtain ⟨rfl, rfl⟩ := List.cons.inj hs
        simp

theorem PhoneWord.clear {w : List Char} (h : PhoneWord w) :
    ∀ c ∈ w, c ≠ '%' ∧ c ≠ '(' ∧ c ≠ ')' := by
  intro c hc
  have hchar := h.chars c hc
  refine ⟨?_, ?_, ?_⟩
  · rintro rfl
    exact absurd hchar (by decide)
  · rintro rfl
    exact absurd hchar (by decide)
  · rintro rfl
    exact absurd hchar (by decide)

theorem PhoneWord.whole {w : List Char} (h : PhoneWord w) : Whole w :=
  ⟨fun c hc => (h.clear c hc).2, fun u v huv =>
    absurd rfl (h.clear '%' (by rw [huv]; simp)).1⟩

theorem spells_of_mem_scan {r : Regex Char} (hr : r.Consuming) {text w : List Char}
    (h : .hit w ∈ scan r [] 0 text) : w ≠ [] ∧ ∃ b a, r.Spells b w a := by
  have hcut := cut_scan hr text
  obtain ⟨ps, qs, hps⟩ := List.append_of_mem h
  rw [hps] at hcut
  exact ⟨hcut.spells.1, _, _, hcut.spells.2⟩

theorem email_wholeHits (text : List Char) : WholeHits (scan emailRe [] 0 text) := by
  intro w hw
  obtain ⟨hne, b, a, hspells⟩ := spells_of_mem_scan emailRe_consuming hw
  exact ⟨hne, (emailRe_spells.mp hspells).whole⟩

theorem phone_wholeHits (text : List Char) : WholeHits (scan phoneRe [] 0 text) := by
  intro w hw
  obtain ⟨hne, b, a, hspells⟩ := spells_of_mem_scan phoneRe_consuming hw
  exact ⟨hne, (phoneRe_spells.mp hspells).2.2.whole⟩

/-- What becomes of the segments of a template under `_redact`: e-mail addresses first, then
    phone numbers. -/
def Redacted (template : List Char) (segments segments' : List Segment) : Prop :=
  ∃ between, Rewritten redactedEmail segments (scan emailRe [] 0 template) between ∧
    Rewritten redactedPhone between
      (scan phoneRe [] 0 (emailRe.sub redactedEmail template)) segments'

/-- A redacted template can be read exactly as it is rewritten. -/
theorem lex_redact_iff {template : String} {segments segments' : List Segment}
    (h : lex .text template.toList = some segments) :
    lex .text (redact template).toList = some segments' ↔
      Redacted template.toList segments segments' := by
  have hemail := source_scan emailRe_consuming template.toList
  have hphone := source_scan phoneRe_consuming (emailRe.sub redactedEmail template.toList)
  rw [← hemail] at h
  have hfirst : ∀ between, lex .text (emailRe.sub redactedEmail template.toList) = some between ↔
      Rewritten redactedEmail segments (scan emailRe [] 0 template.toList) between :=
    fun _ => lex_replaced_iff redactedEmail_bracketed (email_wholeHits template.toList) h
  rw [redact, String.toList_ofList]
  constructor
  · intro hlex
    have hread := lex_source_of_replaced redactedPhone_bracketed (fun w hw => by
      obtain ⟨-, b, a, hspells⟩ := spells_of_mem_scan phoneRe_consuming hw
      exact (phoneRe_spells.mp hspells).2.2.clear) .text
      (Option.isSome_iff_exists.mpr ⟨_, hlex⟩)
    rw [hphone] at hread
    obtain ⟨between, hbetween⟩ := Option.isSome_iff_exists.mp hread
    refine ⟨between, (hfirst between).mp hbetween, ?_⟩
    rw [← hphone] at hbetween
    exact (lex_replaced_iff redactedPhone_bracketed (phone_wholeHits _) hbetween).mp hlex
  · rintro ⟨between, hrewritten, hrewritten'⟩
    have hbetween : lex .text (emailRe.sub redactedEmail template.toList) = some between :=
      (hfirst between).mpr hrewritten
    rw [← hphone] at hbetween
    exact (lex_replaced_iff redactedPhone_bracketed (phone_wholeHits _) hbetween).mpr hrewritten'

end LinkedOut
