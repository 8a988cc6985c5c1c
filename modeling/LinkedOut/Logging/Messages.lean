/-
  `PIIRedactionFilter.filter` against the message that is formatted later.

  The filter redacts the template and the arguments apart, the message is their
  combination. `filtered_message_iff`: the filtered record still formats, to a message
  without a match, exactly when
  * the matches in the template take whole letters and conversions or letters of keys, and
    the conversions that are left fit the arguments;
  * no match of the message reaches over the edge of a part or into a print that is not a
    string as it is.
  That no part of the template and no string has a match in it is `redact_clean`; the phone
  pattern looks around, but the neighbours of a part in the template are no digits.
-/
import LinkedOut.Logging.Templates

namespace LinkedOut

open Regex

/-! ## Redacted arguments -/

def FormatArg.redact : FormatArg → FormatArg
  | .value v => .value (v.redact LinkedOut.redact)
  | .mapping entries =>
    .mapping (entries.map fun entry => (entry.1, entry.2.redact LinkedOut.redact))

namespace ArgState

/-- The strings among the arguments redacted. -/
def redact (s : ArgState) : ArgState :=
  ⟨s.entries.map fun entries => entries.map fun entry => (entry.1, entry.2.redact LinkedOut.redact),
    s.next.map FormatArg.redact⟩

end ArgState

theorem start_filter (record : LogRecord) :
    (PIIRedactionFilter.filter redact record).1.args.start = record.args.start.redact := by
  obtain ⟨name, level, msg, args⟩ := record
  cases args with
  | none => rfl
  | tuple values =>
    simp [PIIRedactionFilter.filter, LogArgs.start, ArgState.redact, FormatArg.redact]
  | dict items => rfl

theorem isEmpty_filter (record : LogRecord) :
    (PIIRedactionFilter.filter redact record).1.args.isEmpty = record.args.isEmpty := by
  obtain ⟨name, level, msg, args⟩ := record
  cases args with
  | none => rfl
  | tuple values => cases values <;> rfl
  | dict items => cases items <;> rfl

/-- Only a text of one letter becomes one. -/
theorem length_replaced_one {repl : List Char} (hrepl : 2 ≤ repl.length) {ps : List (Piece Char)}
    (hps : ∀ w, .hit w ∈ ps → 2 ≤ w.length) :
    (replaced repl ps).length = 1 ↔ (source ps).length = 1 := by
  have hpos : ∀ p ∈ ps, 1 ≤ p.source.length ∧ 1 ≤ (p.replaced repl).length := by
    intro p hp
    cases p with
    | kept c => exact ⟨Nat.le_refl 1, Nat.le_refl 1⟩
    | hit w =>
      have hlen := hps w hp
      exact ⟨by rw [Piece.source]; omega, by rw [Piece.replaced]; omega⟩
  rcases ps with _ | ⟨c | w, _ | ⟨p, ps⟩⟩
  · exact Iff.rfl
  · exact Iff.rfl
  · obtain ⟨hsource, hreplaced⟩ := hpos p (by simp)
    have hone : (Piece.kept c).source.length = 1 ∧ ((Piece.kept c).replaced repl).length = 1 :=
      ⟨rfl, rfl⟩
    simp only [replaced_cons, source_cons, List.length_append]
    omega
  all_goals
    have hlen := hps w List.mem_cons_self
    simp only [replaced_cons, source_cons, Piece.replaced, Piece.source, List.length_append]
    omega

theorem length_redact_one (t : String) :
    (redact t).toList.length = 1 ↔ t.toList.length = 1 := by
  have hemail : (emailRe.sub redactedEmail t.toList).length = 1 ↔
      (source (scan emailRe [] 0 t.toList)).length = 1 :=
    length_replaced_one (by decide) fun w hw => by
      obtain ⟨-, b, a, hspells⟩ := spells_of_mem_scan emailRe_consuming hw
      obtain ⟨-, -, -, -, htop, -⟩ := emailRe_spells.mp hspells
      simp only [List.length_append, List.length_cons]
      omega
  have hphone : (phoneRe.sub redactedPhone (emailRe.sub redactedEmail t.toList)).length = 1 ↔
      (source (scan phoneRe [] 0 (emailRe.sub redactedEmail t.toList))).length = 1 :=
    length_replaced_one (by decide) fun w hw => by
      obtain ⟨-, b, a, hspells⟩ := spells_of_mem_scan phoneRe_consuming hw
      rcases (phoneRe_spells.mp hspells).2.2 with hbody | ⟨v, rfl, hbody⟩
      · have hlen := hbody.length
        omega
      · have hlen := hbody.length
        rw [List.length_cons]
        omega
  rw [source_scan phoneRe_consuming] at hphone
  rw [source_scan emailRe_consuming] at hemail
  rw [redact, String.toList_ofList]
  exact hphone.trans hemail

theorem convertChar_str (p : Printers) (flags : List Char) (width : Option Int) (t : String) :
    (convertChar p flags width (.value (.str t))).isSome = decide (t.toList.length = 1) := by
  unfold convertChar
  split
  · rename_i heq
    cases heq
    split
    · rename_i hone
      rw [Option.isSome_some, decide_eq_true hone]
    · rename_i hone
      rw [Option.isSome_none, decide_eq_false hone]
  · rename_i heq
    cases heq
  · rename_i heq
    cases heq
  · rename_i heq
    cases heq

theorem convertNumber_str (p : Printers) (flags : List Char) (width precision : Option Int)
    (type : Char) (t : String) :
    convertNumber p flags width precision type (.value (.str t)) = none := rfl

/-- What a conversion can print does not hang on the text of a string. -/
theorem convert_redact (p : Printers) (flags : List Char) (width precision : Option Int)
    (type : Char) (v : FormatArg) :
    (convert p flags width precision type v.redact).isSome =
      (convert p flags width precision type v).isSome := by
  have htext : ∀ v : FormatArg, (∀ o, v ≠ .value (.obj o)) →
      (convertText p flags width precision type v).isSome = true := by
    intro v hv
    unfold convertText
    split
    · exact absurd rfl (hv _)
    · dsimp only
      split <;> rfl
  cases v with
  | value v =>
    cases v with
    | int n => rfl
    | obj o => rfl
    | str t =>
      have hlen := length_redact_one t
      unfold convert
      split
      · rw [htext _ (by simp [FormatArg.redact, LogValue.redact]), htext _ (by simp)]
      · split
        · rw [FormatArg.redact, LogValue.redact, convertChar_str, convertChar_str]
          exact decide_eq_decide.mpr hlen
        · rw [FormatArg.redact, LogValue.redact, convertNumber_str, convertNumber_str]
  | mapping entries =>
    unfold convert
    split
    · rw [htext _ (by simp [FormatArg.redact]), htext _ (by simp)]
    · split <;> rfl

namespace ArgState

theorem take_redact (s : ArgState) :
    s.redact.take = s.take.map fun r => (r.1.redact, r.2.redact) := by
  obtain ⟨entries, next⟩ := s
  cases next <;> rfl

theorem lookup_redact (entries : List (String × LogValue)) (key : String) :
    (entries.map fun entry => (entry.1, entry.2.redact LinkedOut.redact)).lookup key =
      (entries.lookup key).map (LogValue.redact LinkedOut.redact) := by
  induction entries with
  | nil => rfl
  | cons entry entries ih =>
    rw [List.map_cons, List.lookup_cons, List.lookup_cons]
    split
    · rfl
    · exact ih

theorem enter_redact (s : ArgState) (key : Option (List Char)) :
    s.redact.enter key = (s.enter key).map redact := by
  obtain ⟨entries, next⟩ := s
  cases key with
  | none => rfl
  | some key =>
    cases entries with
    | none => rfl
    | some entries =>
      have hlookup := lookup_redact entries (String.ofList key)
      simp only [enter, redact, Option.map_some, Option.bind_eq_bind, Option.bind_some, hlookup]
      cases entries.lookup (String.ofList key) <;> rfl

theorem takeAmount_redact (max : Nat) (s : ArgState) (amount : Amount) :
    s.redact.takeAmount max amount = (s.takeAmount max amount).map fun r => (r.1, r.2.redact) := by
  cases amount with
  | absent => rfl
  | digits n => rfl
  | star =>
    simp only [takeAmount, take_redact]
    cases s.take with
    | none => rfl
    | some r =>
      obtain ⟨v, s⟩ := r
      cases v with
      | mapping entries => rfl
      | value v =>
        cases v with
        | str t => rfl
        | obj o => rfl
        | int n =>
          change (if _ then _ else _) = Option.map _ (if _ then _ else _)
          split <;> rfl

end ArgState

theorem isSome_cases {α β : Type} {a : Option α} {b : Option β} (h : a.isSome = b.isSome) :
    (a = none ∧ b = none) ∨ ∃ x y, a = some x ∧ b = some y := by
  cases b with
  | none => exact Or.inl ⟨Option.isNone_iff_eq_none.mp (Option.isSome_eq_false_iff.mp h), rfl⟩
  | some y =>
    obtain ⟨x, hx⟩ := Option.isSome_iff_exists.mp h
    exact Or.inr ⟨x, y, hx, rfl⟩

/-- A conversion takes the redacted arguments as it takes the arguments. -/
theorem Conversion.fill_redact (p : Printers) (k : Conversion) (s : ArgState) :
    (k.fill p s.redact).map Prod.snd = (k.fill p s).map fun r => r.2.redact := by
  unfold Conversion.fill
  rw [ArgState.enter_redact]
  cases s.enter k.key with
  | none => rfl
  | some s =>
    cases readSpec k.spec with
    | none => rfl
    | some spec =>
      simp only [Option.map_some, Option.bind_eq_bind, Option.bind_some, ArgState.takeAmount_redact]
      cases s.takeAmount maxWidth spec.width with
      | none => rfl
      | some r =>
        obtain ⟨width, s⟩ := r
        simp only [Option.map_some, Option.bind_some, ArgState.takeAmount_redact]
        cases s.takeAmount maxPrecision spec.precision with
        | none => rfl
        | some r =>
          obtain ⟨precision, s⟩ := r
          simp only [Option.map_some, Option.bind_some, ArgState.take_redact]
          split
          · rfl
          · cases s.take with
            | none => rfl
            | some r =>
              obtain ⟨v, s⟩ := r
              have hconvert := convert_redact p spec.flags width precision k.type v
              simp only [Option.map_some, Option.bind_some]
              rcases isSome_cases hconvert with ⟨hredact, hv⟩ | ⟨part', part, hredact, hv⟩
              · rw [hredact, hv]
                rfl
              · rw [hredact, hv]
                rfl

/-- The conversions take the redacted arguments if they take the arguments. -/
theorem fill_redact (p : Printers) (segments : List Segment) (s : ArgState) :
    (fill p segments s.redact).isSome = (fill p segments s).isSome := by
  induction segments generalizing s with
  | nil =>
    obtain ⟨entries, next⟩ := s
    cases entries <;> cases next <;> rfl
  | cons segment segments ih =>
    cases segment with
    | letter c =>
      rw [fill, fill, Option.isSome_map, Option.isSome_map]
      exact ih s
    | conversion k =>
      have hk := k.fill_redact p s
      rw [fill, fill]
      cases hs : k.fill p s with
      | none =>
        rw [hs, Option.map_none, Option.map_eq_none_iff] at hk
        rw [hk]
      | some r =>
        obtain ⟨part, s'⟩ := r
        rw [hs, Option.map_some, Option.map_eq_some_iff] at hk
        obtain ⟨⟨part', s''⟩, hredact, rfl⟩ := hk
        have hrest := ih s'
        rw [hredact]
        simp only [Option.bind_eq_bind, Option.bind_some]
        rcases isSome_cases hrest with ⟨hredact', hleft⟩ | ⟨parts', parts, hredact', hleft⟩
        · rw [hredact', hleft]
          rfl
        · rw [hredact', hleft]
          rfl

/-! ## The parts of a message -/

section

variable {Q : String → Prop} {p : Printers}

/-- Every string among the arguments is of this kind. -/
structure ArgState.Holds (Q : String → Prop) (s : ArgState) : Prop where
  next : ∀ t, .value (.str t) ∈ s.next → Q t
  entries : ∀ entries, s.entries = some entries → ∀ key t, (key, .str t) ∈ entries → Q t

/-- A print is not of the template, and where it is a string as it is, it is the argument. -/
theorem convert_string {flags : List Char} {width precision : Option Int} {type : Char}
    {v : FormatArg} {part : Part} (h : convert p flags width precision type v = some part) :
    (∀ w, part ≠ .literal w) ∧
      ∀ w, part = .string w → ∃ t, v = .value (.str t) ∧ w = t.toList := by
  have hother : ∀ u, part = .other u → (∀ w, part ≠ .literal w) ∧
      ∀ w, part = .string w → ∃ t, v = .value (.str t) ∧ w = t.toList := by
    rintro u rfl
    exact ⟨(fun w hw => nomatch hw), (fun w hw => nomatch hw)⟩
  unfold convert at h
  split at h
  · unfold convertText at h
    split at h
    · obtain ⟨u, -, rfl⟩ := Option.map_eq_some_iff.mp h
      exact hother _ rfl
    · dsimp only at h
      split at h
      · split at h
        · rename_i heq
          cases h
          exact ⟨(fun w hw => nomatch hw), fun w hw => ⟨_, rfl, by rw [← Part.string.inj hw, heq]⟩⟩
        · cases h
          exact hother _ rfl
      · cases h
        exact hother _ rfl
  · split at h
    · unfold convertChar at h
      split at h
      · split at h
        · cases h
          exact hother _ rfl
        · cases h
      · split at h
        · cases h
          exact hother _ rfl
        · cases h
      · obtain ⟨u, -, rfl⟩ := Option.map_eq_some_iff.mp h
        exact hother _ rfl
      · cases h
    · unfold convertNumber at h
      split at h
      · split at h
        · cases h
          exact hother _ rfl
        · obtain ⟨u, -, rfl⟩ := Option.map_eq_some_iff.mp h
          exact hother _ rfl
      · obtain ⟨u, -, rfl⟩ := Option.map_eq_some_iff.mp h
        exact hother _ rfl
      · cases h

namespace ArgState

variable {s s' : ArgState}

theorem Holds.take (hs : s.Holds Q) {v : FormatArg} (h : s.take = some (v, s')) :
    s'.Holds Q ∧ ∀ t, v = .value (.str t) → Q t := by
  obtain ⟨entries, next⟩ := s
  cases next with
  | nil => cases h
  | cons a next =>
    cases h
    refine ⟨⟨fun t ht => hs.next t (List.mem_cons_of_mem _ ht), hs.entries⟩, ?_⟩
    rintro t rfl
    exact hs.next t List.mem_cons_self

theorem Holds.enter (hs : s.Holds Q) {key : Option (List Char)} (h : s.enter key = some s') :
    s'.Holds Q := by
  cases key with
  | none =>
    obtain rfl : s = s' := Option.some.inj h
    exact hs
  | some key =>
    obtain ⟨entries, hentries, h⟩ := Option.bind_eq_some_iff.mp h
    obtain ⟨v, hv, h⟩ := Option.bind_eq_some_iff.mp h
    cases h
    refine ⟨fun t ht => ?_, hs.entries⟩
    obtain rfl : LogValue.str t = v := by simpa using ht
    obtain ⟨before, after, rfl, -⟩ := List.lookup_eq_some_iff.mp hv
    exact hs.entries _ hentries (String.ofList key) t (by simp)

theorem Holds.takeAmount (hs : s.Holds Q) {max : Nat} {amount : Amount} {n : Option Int}
    (h : s.takeAmount max amount = some (n, s')) : s'.Holds Q := by
  cases amount with
  | absent =>
    cases h
    exact hs
  | digits m =>
    cases h
    exact hs
  | star =>
    obtain ⟨⟨v, s₁⟩, htake, h⟩ := Option.bind_eq_some_iff.mp h
    dsimp only at h
    split at h
    · split at h
      · cases h
        exact (hs.take htake).1
      · cases h
    · cases h

end ArgState

/-- What one conversion prints, and what it leaves. -/
theorem Conversion.fill_part {k : Conversion} {s s' : ArgState} {part : Part} (hs : s.Holds Q)
    (h : k.fill p s = some (part, s')) :
    s'.Holds Q ∧ (∀ w, part ≠ .literal w) ∧
      ∀ w, part = .string w → ∃ t, Q t ∧ w = t.toList := by
  obtain ⟨s₁, henter, h⟩ := Option.bind_eq_some_iff.mp h
  obtain ⟨spec, -, h⟩ := Option.bind_eq_some_iff.mp h
  obtain ⟨⟨width, s₂⟩, hwidth, h⟩ := Option.bind_eq_some_iff.mp h
  obtain ⟨⟨precision, s₃⟩, hprecision, h⟩ := Option.bind_eq_some_iff.mp h
  have hs₃ : s₃.Holds Q := ((hs.enter henter).takeAmount hwidth).takeAmount hprecision
  dsimp only at h
  split at h
  · cases h
    exact ⟨hs₃, (fun w hw => nomatch hw), (fun w hw => nomatch hw)⟩
  · obtain ⟨⟨v, s₄⟩, htake, h⟩ := Option.bind_eq_some_iff.mp h
    obtain ⟨part', hconvert, h⟩ := Option.bind_eq_some_iff.mp h
    cases h
    obtain ⟨hs₄, hv⟩ := hs₃.take htake
    obtain ⟨hliteral, hstring⟩ := convert_string hconvert
    refine ⟨hs₄, hliteral, fun w hw => ?_⟩
    obtain ⟨t, rfl, rfl⟩ := hstring w hw
    exact ⟨t, hv t rfl, rfl⟩

theorem string_mem_addLetter {c : Char} {parts : List Part} {w : List Char}
    (h : .string w ∈ addLetter c parts) : .string w ∈ parts := by
  unfold addLetter at h
  split at h
  · rcases List.mem_cons.mp h with h | h
    · cases h
    · exact List.mem_cons_of_mem _ h
  · rcases List.mem_cons.mp h with h | h
    · cases h
    · exact h

/-- The strings of a message are arguments. -/
theorem string_mem_fill {segments : List Segment} {s : ArgState} (hs : s.Holds Q)
    {parts : List Part} (h : fill p segments s = some parts) {w : List Char}
    (hw : .string w ∈ parts) : ∃ t, Q t ∧ w = t.toList := by
  induction segments generalizing s parts with
  | nil =>
    rw [fill] at h
    split at h
    · cases h
    · cases h
      cases hw
  | cons segment segments ih =>
    cases segment with
    | letter c =>
      obtain ⟨parts', hparts, rfl⟩ := Option.map_eq_some_iff.mp h
      exact ih hs hparts (string_mem_addLetter hw)
    | conversion k =>
      obtain ⟨⟨part, s'⟩, hk, h⟩ := Option.bind_eq_some_iff.mp h
      obtain ⟨parts', hparts, h⟩ := Option.bind_eq_some_iff.mp h
      cases h
      obtain ⟨hs', -, hstring⟩ := Conversion.fill_part hs hk
      rcases List.mem_cons.mp hw with heq | hw
      · exact hstring w heq.symm
      · exact ih hs' hparts hw

/-- Where the first part is not of the template, no letter comes first. -/
theorem fill_first {segments : List Segment} {s : ArgState} {parts : List Part}
    (h : fill p segments s = some parts) (hfirst : ∀ w parts', parts ≠ .literal w :: parts') :
    segments = [] ∨ ∃ k rest, segments = .conversion k :: rest := by
  cases segments with
  | nil => exact Or.inl rfl
  | cons segment segments =>
    cases segment with
    | conversion k => exact Or.inr ⟨k, segments, rfl⟩
    | letter c =>
      obtain ⟨parts', -, rfl⟩ := Option.map_eq_some_iff.mp h
      unfold addLetter at hfirst
      split at hfirst
      · exact absurd rfl (hfirst _ _)
      · exact absurd rfl (hfirst _ _)

theorem ends_in_conversion_cons (x : Segment) {s : List Segment}
    (h : ∃ s' k, s = s' ++ [.conversion k]) : ∃ s' k, x :: s = s' ++ [.conversion k] := by
  obtain ⟨s', k, rfl⟩ := h
  exact ⟨x :: s', k, rfl⟩

/-- A stretch of the template stands between conversions. -/
theorem literal_of_fill {segments : List Segment} {s : ArgState} (hs : s.Holds Q)
    {before after : List Part} {w : List Char}
    (h : fill p segments s = some (before ++ .literal w :: after)) :
    ∃ s₁ s₂, segments = s₁ ++ (w.map .letter ++ s₂) ∧
      ((before = [] ∧ s₁ = []) ∨ (before ≠ [] ∧ ∃ s k, s₁ = s ++ [.conversion k])) ∧
      (s₂ = [] ∨ ∃ k s, s₂ = .conversion k :: s) := by
  induction segments generalizing s before w with
  | nil =>
    rw [fill] at h
    split at h
    · cases h
    · exact absurd (Option.some.inj h).symm (by simp)
  | cons segment segments ih =>
    cases segment with
    | conversion k =>
      obtain ⟨⟨part, s'⟩, hk, h⟩ := Option.bind_eq_some_iff.mp h
      obtain ⟨parts', hparts, h⟩ := Option.bind_eq_some_iff.mp h
      obtain ⟨hs', hliteral, -⟩ := Conversion.fill_part hs hk
      have heq : part :: parts' = before ++ .literal w :: after := Option.some.inj h
      cases before with
      | nil => exact absurd (List.cons.inj heq).1 (hliteral w)
      | cons part' before =>
        obtain ⟨rfl, rfl⟩ := List.cons.inj heq
        obtain ⟨s₁, s₂, rfl, hs₁, hs₂⟩ := ih hs' hparts
        refine ⟨.conversion k :: s₁, s₂, rfl, Or.inr ⟨List.cons_ne_nil _ _, ?_⟩, hs₂⟩
        rcases hs₁ with ⟨-, rfl⟩ | ⟨-, hends⟩
        · exact ⟨[], k, rfl⟩
        · exact ends_in_conversion_cons _ hends
    | letter c =>
      obtain ⟨parts', hparts, heq⟩ := Option.map_eq_some_iff.mp h
      unfold addLetter at heq
      split at heq
      · rename_i w' parts''
        cases before with
        | nil =>
          obtain ⟨hw, rfl⟩ := List.cons.inj heq
          obtain rfl : c :: w' = w := Part.literal.inj hw
          have hparts' : fill p segments s = some ([] ++ .literal w' :: parts'') := hparts
          obtain ⟨s₁, s₂, rfl, hs₁, hs₂⟩ := ih hs hparts'
          rcases hs₁ with ⟨-, rfl⟩ | ⟨hne, -⟩
          · exact ⟨[], s₂, rfl, Or.inl ⟨rfl, rfl⟩, hs₂⟩
          · exact absurd rfl hne
        | cons part before =>
          obtain ⟨rfl, rfl⟩ := List.cons.inj heq
          have hparts' : fill p segments s =
              some ((.literal w' :: before) ++ .literal w :: after) := hparts
          obtain ⟨s₁, s₂, rfl, hs₁, hs₂⟩ := ih hs hparts'
          refine ⟨.letter c :: s₁, s₂, rfl, Or.inr ⟨List.cons_ne_nil _ _, ?_⟩, hs₂⟩
          rcases hs₁ with ⟨hnil, -⟩ | ⟨-, hends⟩
          · cases hnil
          · exact ends_in_conversion_cons _ hends
      · rename_i hfirst
        have hfirst' := fill_first hparts fun w' parts'' hp => hfirst w' parts'' hp
        cases before with
        | nil =>
          obtain ⟨hw, rfl⟩ := List.cons.inj heq
          obtain rfl : [c] = w := Part.literal.inj hw
          exact ⟨[], segments, rfl, Or.inl ⟨rfl, rfl⟩, hfirst'⟩
        | cons part before =>
          obtain ⟨rfl, rfl⟩ := List.cons.inj heq
          obtain ⟨s₁, s₂, rfl, hs₁, hs₂⟩ := ih hs hparts
          refine ⟨.letter c :: s₁, s₂, rfl, Or.inr ⟨List.cons_ne_nil _ _, ?_⟩, hs₂⟩
          rcases hs₁ with ⟨rfl, -⟩ | ⟨-, hends⟩
          · exact absurd rfl (hfirst _ _)
          · exact ends_in_conversion_cons _ hends

end

/-! ## Matches in a message -/

/-- Every match in the message lies in one stretch of the template or in one string. -/
def Seamless (r : Regex Char) (parts : List Part) : Prop :=
  ∀ u w v, partsText parts = u ++ w ++ v → r.Spells u.reverse w v →
    ∃ before part after x y, parts = before ++ part :: after ∧ part.isText = true ∧
      part.text = x ++ (w ++ y) ∧ u = partsText before ++ x ∧ v = y ++ partsText after

/-- In a text without e-mail addresses there is none wherever a part of it is put. -/
theorem email_inside {a b x w y c d : List Char}
    (h : emailRe.Absent (a ++ ((x ++ (w ++ y)) ++ b))) : ¬ emailRe.Spells c w d := by
  intro hspells
  refine h (a ++ x) w (y ++ b) (by simp) ?_
  exact emailRe_spells.mpr (emailRe_spells.mp hspells)

/-- The letter beside `x`, if the letter beside the part is no digit either way. -/
theorem noDecimal_beside {a c x : List Char} (ha : noDecimal a.head? = true)
    (hx : noDecimal (x ++ c).head? = true) : noDecimal (x ++ a).head? = true := by
  cases x with
  | nil => exact ha
  | cons z x => exact hx

/-- In a text without phone numbers there is none wherever a part of it is put whose
    neighbours in the text are no digits. -/
theorem phone_inside {a b x w y c d : List Char}
    (h : phoneRe.Absent (a ++ ((x ++ (w ++ y)) ++ b))) (ha : noDecimal a.reverse.head? = true)
    (hb : noDecimal b.head? = true) : ¬ phoneRe.Spells (c ++ x).reverse w (y ++ d) := by
  intro hspells
  obtain ⟨hbefore, hafter, hw⟩ := phoneRe_spells.mp hspells
  refine h (a ++ x) w (y ++ b) (by simp) (phoneRe_spells.mpr ⟨?_, noDecimal_beside hb hafter, hw⟩)
  rw [List.reverse_append] at hbefore ⊢
  exact noDecimal_beside ha hbefore

theorem not_isDecimal_of_isConversionType {c : Char} (h : isConversionType c = true) :
    isDecimal c = false := by
  have hall : ∀ c ∈ ['s', 'r', 'a', 'd', 'i', 'u', 'o', 'x', 'X', 'e', 'E', 'f', 'F', 'g', 'G',
      'c', '%'], isDecimal c = false := forall_mem_of_all (by decide)
  exact hall c (by simpa [isConversionType] using h)

/-- No match lies in one part, so a message without seams has none. -/
theorem absent_iff_seamless {r : Regex Char} {parts : List Part}
    (hinside : ∀ before part after x w y, parts = before ++ part :: after → part.isText = true →
      part.text = x ++ (w ++ y) →
      ¬ r.Spells (partsText before ++ x).reverse w (y ++ partsText after)) :
    r.Absent (partsText parts) ↔ Seamless r parts := by
  constructor
  · exact fun h u w v heq hspells => absurd hspells (h u w v heq)
  · intro h u w v heq hspells
    obtain ⟨before, part, after, x, y, hparts, htext, hpart, rfl, rfl⟩ := h u w v heq hspells
    exact hinside before part after x w y hparts htext hpart hspells

/-- No match lies in one stretch of a redacted template or in one redacted string. -/
theorem inside_redacted {p : Printers} {template : String} {segments : List Segment}
    (hlex : lex .text (redact template).toList = some segments) {s : ArgState}
    (hs : s.Holds fun t => ∃ t₀, t = redact t₀) {parts : List Part}
    (hfill : fill p segments s = some parts) {before after : List Part} {part : Part}
    {x w y : List Char} (hparts : parts = before ++ part :: after) (htext : part.isText = true)
    (hpart : part.text = x ++ (w ++ y)) :
    ¬ emailRe.Spells (partsText before ++ x).reverse w (y ++ partsText after) ∧
      ¬ phoneRe.Spells (partsText before ++ x).reverse w (y ++ partsText after) := by
  cases part with
  | other v => cases htext
  | string v =>
    obtain ⟨t, ⟨t₀, rfl⟩, hv⟩ := string_mem_fill hs hfill (w := v) (by rw [hparts]; simp)
    have hclean := redact_clean t₀
    have hwhole : (redact t₀).toList = [] ++ ((x ++ (w ++ y)) ++ []) := by
      rw [← hpart, ← hv, Part.text, List.append_nil, List.nil_append]
    rw [hwhole] at hclean
    exact ⟨email_inside hclean.1, phone_inside hclean.2.1 rfl rfl⟩
  | literal v =>
    rw [hparts] at hfill
    obtain ⟨s₁, s₂, rfl, hs₁, hs₂⟩ := literal_of_fill hs hfill
    obtain ⟨htemplate, hwell⟩ := lex_eq_some.mp hlex
    have hclean := redact_clean template
    have hwhole : (redact template).toList =
        segmentsText s₁ ++ ((x ++ (w ++ y)) ++ segmentsText s₂) := by
      rw [htemplate, segmentsText_append, segmentsText_append, segmentsText_letters, ← hpart]
      rfl
    rw [hwhole] at hclean
    refine ⟨email_inside hclean.1, phone_inside hclean.2.1 ?_ ?_⟩
    · rcases hs₁ with ⟨-, rfl⟩ | ⟨-, s, k, rfl⟩
      · rfl
      · have hk := (hwell (.conversion k) (by simp)).type
        rw [segmentsText_append]
        simp [segmentsText, Segment.text, Conversion.text, noDecimal,
          not_isDecimal_of_isConversionType hk]
    · rcases hs₂ with rfl | ⟨k, s, rfl⟩
      · rfl
      · change noDecimal (some '%') = true
        decide

/-- A message of redacted parts has no match exactly when none lies across two of them. -/
theorem redacted_absent_iff {p : Printers} {template : String} {segments : List Segment}
    (hlex : lex .text (redact template).toList = some segments) {s : ArgState}
    (hs : s.Holds fun t => ∃ t₀, t = redact t₀) {parts : List Part}
    (hfill : fill p segments s = some parts) :
    (emailRe.Absent (partsText parts) ∧ phoneRe.Absent (partsText parts)) ↔
      Seamless emailRe parts ∧ Seamless phoneRe parts := by
  refine and_congr ?_ ?_
  · exact absent_iff_seamless fun before part after x w y hparts htext hpart =>
      (inside_redacted hlex hs hfill hparts htext hpart).1
  · exact absent_iff_seamless fun before part after x w y hparts htext hpart =>
      (inside_redacted hlex hs hfill hparts htext hpart).2

/-- The redacted template still takes the arguments, and the parts of the message meet in no
    match. The parts are those after redaction: the filter redacts the template and every
    argument before they are put together, so what stood in them before can no longer meet. -/
def RedactsWell (p : Printers) (template : String) (args : LogArgs) : Prop :=
  ∃ segments segments', lex .text template.toList = some segments ∧
    Redacted template.toList segments segments' ∧
    (fill p segments' args.start).isSome = true ∧
    ∀ parts, fill p segments' args.start.redact = some parts →
      Seamless emailRe parts ∧ Seamless phoneRe parts

theorem holds_redact (s : ArgState) : s.redact.Holds fun t => ∃ t₀, t = redact t₀ := by
  have hvalue : ∀ {v : LogValue} {t : String}, v.redact redact = .str t → ∃ t₀, t = redact t₀ := by
    intro v t h
    cases v with
    | str t₀ => exact ⟨t₀, (LogValue.str.inj h).symm⟩
    | int n => cases h
    | obj o => cases h
  refine ⟨fun t ht => ?_, fun entries hentries key t ht => ?_⟩
  · obtain ⟨v, -, hv⟩ := List.mem_map.mp ht
    cases v with
    | value v => exact hvalue (FormatArg.value.inj hv)
    | mapping entries => cases hv
  · obtain ⟨entries', -, rfl⟩ := Option.map_eq_some_iff.mp hentries
    obtain ⟨entry, -, heq⟩ := List.mem_map.mp ht
    exact hvalue (Prod.mk.inj heq).2

/-- What the filtered record formats to. -/
theorem getMessage_filter (p : Printers) (record : LogRecord) {template : String}
    (hmsg : record.msg = .str template) (hargs : record.args.isEmpty = false) :
    getMessage p (PIIRedactionFilter.filter redact record).1 =
      (lex .text (redact template).toList).bind fun segments =>
        (fill p segments record.args.start.redact).map fun parts =>
          String.ofList (partsText parts) := by
  have htext : (PIIRedactionFilter.filter redact record).1.msg.text = redact template := by
    change (record.msg.redact redact).text = redact template
    rw [hmsg]
    rfl
  unfold getMessage
  rw [isEmpty_filter, hargs, htext, start_filter, if_neg Bool.false_ne_true]
  simp only [Option.bind_eq_bind, Option.map_eq_bind]
  rfl

/-- A message that formats with arguments has a template that can be read. -/
theorem exists_lex_of_getMessage {p : Printers} {record : LogRecord} {template : String}
    (hmsg : record.msg = .str template) (hargs : record.args.isEmpty = false)
    (hformat : (getMessage p record).isSome = true) :
    ∃ segments, lex .text template.toList = some segments := by
  unfold getMessage at hformat
  rw [hargs, if_neg Bool.false_ne_true, hmsg, LogValue.text] at hformat
  cases hlex : lex .text template.toList with
  | none =>
    rw [hlex] at hformat
    cases hformat
  | some segments => exact ⟨segments, rfl⟩

/-- A record whose message formats before the filter runs: it formats behind the filter too,
    to a message without e-mail addresses and phone numbers, if and only if it has no
    arguments or they and the template are redacted well. -/
theorem filtered_message_iff (p : Printers) (record : LogRecord) {template : String}
    (hmsg : record.msg = .str template) (hformat : (getMessage p record).isSome = true) :
    (∃ message, getMessage p (PIIRedactionFilter.filter redact record).1 = some message ∧
      emailRe.Absent message.toList ∧ phoneRe.Absent message.toList) ↔
    record.args.isEmpty = true ∨ RedactsWell p template record.args := by
  cases hargs : record.args.isEmpty with
  | true =>
    refine ⟨fun _ => Or.inl rfl, fun _ => ⟨redact template, ?_, ?_⟩⟩
    · unfold getMessage
      rw [isEmpty_filter, hargs, if_pos rfl]
      change some (record.msg.redact redact).text = _
      rw [hmsg]
      rfl
    · exact ⟨(redact_clean template).1, (redact_clean template).2.1⟩
  | false =>
    obtain ⟨segments, hsegments⟩ := exists_lex_of_getMessage hmsg hargs hformat
    rw [getMessage_filter p record hmsg hargs]
    constructor
    · rintro ⟨message, hmessage, habsent⟩
      obtain ⟨segments', hlex, hmessage⟩ := Option.bind_eq_some_iff.mp hmessage
      obtain ⟨parts, hfill, rfl⟩ := Option.map_eq_some_iff.mp hmessage
      rw [String.toList_ofList] at habsent
      refine Or.inr ⟨segments, segments', hsegments, (lex_redact_iff hsegments).mp hlex, ?_, ?_⟩
      · rw [← fill_redact, hfill]
        rfl
      · intro parts' hfill'
        obtain rfl : parts = parts' := Option.some.inj (hfill.symm.trans hfill')
        exact (redacted_absent_iff hlex (holds_redact _) hfill).mp habsent
    · rintro (h | ⟨segments₀, segments', hsegments₀, hredacted, hfits, hseamless⟩)
      · cases h
      · obtain rfl : segments = segments₀ := Option.some.inj (hsegments.symm.trans hsegments₀)
        have hlex := (lex_redact_iff hsegments).mpr hredacted
        rw [← fill_redact] at hfits
        obtain ⟨parts, hfill⟩ := Option.isSome_iff_exists.mp hfits
        refine ⟨String.ofList (partsText parts), ?_, ?_⟩
        · rw [hlex, Option.bind_some, hfill]
          rfl
        · rw [String.toList_ofList]
          exact (redacted_absent_iff hlex (holds_redact _) hfill).mpr (hseamless parts hfill)

/-- Nothing is printed of anything but strings and integers. -/
def noPrinters : Printers := ⟨fun _ => [], fun _ => [], fun _ _ _ _ => none, fun _ _ => none⟩

theorem greeting_filtered : ∃ message,
    getMessage noPrinters (PIIRedactionFilter.filter redact
      ⟨[], 20, .str "hi %s", .tuple [.str "ann@acme.com"]⟩).1 = some message ∧
    emailRe.Absent message.toList ∧ phoneRe.Absent message.toList := by
  have hlex : lex .text "hi %s".toList = some [.letter 'h', .letter 'i', .letter ' ',
      .conversion ⟨none, [], 's'⟩] := by decide +kernel
  have hlex' : lex .text (redact "hi %s").toList = some [.letter 'h', .letter 'i', .letter ' ',
      .conversion ⟨none, [], 's'⟩] := by decide +kernel
  refine (filtered_message_iff noPrinters ⟨[], 20, .str "hi %s", .tuple [.str "ann@acme.com"]⟩ rfl
    (by decide +kernel)).mpr (Or.inr ⟨_, _, hlex, (lex_redact_iff hlex).mp hlex',
      by decide +kernel, fun parts hfill => ?_⟩)
  have hparts : fill noPrinters [.letter 'h', .letter 'i', .letter ' ',
      .conversion ⟨none, [], 's'⟩] (LogArgs.tuple [.str "ann@acme.com"]).start.redact =
        some [.literal "hi ".toList, .string redactedEmail] := by decide +kernel
  obtain rfl := Option.some.inj (hparts.symm.trans hfill)
  have hemail := email_absent_after_email "hi [REDACTED_EMAIL]".toList
  have hphone := phone_absent_after_phone "hi [REDACTED_EMAIL]".toList
  have hsub : emailRe.sub redactedEmail "hi [REDACTED_EMAIL]".toList =
      partsText [.literal "hi ".toList, .string redactedEmail] := by decide +kernel
  have hsub' : phoneRe.sub redactedPhone "hi [REDACTED_EMAIL]".toList =
      partsText [.literal "hi ".toList, .string redactedEmail] := by decide +kernel
  rw [hsub] at hemail
  rw [hsub'] at hphone
  exact ⟨fun u w v heq hspells => absurd hspells (hemail u w v heq),
    fun u w v heq hspells => absurd hspells (hphone u w v heq)⟩

/-- `logger.info("%s@%s", "ann", "acme.com")` -/
theorem split_address_leaks : ¬ ∀ (p : Printers) (template : String) (values : List LogValue),
    (∀ v ∈ values, ∀ o, v ≠ .obj o) →
    (getMessage p ⟨[], 20, .str template, .tuple values⟩).isSome = true →
    ∃ message,
      getMessage p (PIIRedactionFilter.filter redact ⟨[], 20, .str template, .tuple values⟩).1 =
        some message ∧
      emailRe.Absent message.toList ∧ phoneRe.Absent message.toList := by
  intro h
  obtain ⟨message, hmessage, hemail, -⟩ := h noPrinters "%s@%s" [.str "ann", .str "acme.com"]
    (by simp) (by decide +kernel)
  have hsame : getMessage noPrinters (PIIRedactionFilter.filter redact
      ⟨[], 20, .str "%s@%s", .tuple [.str "ann", .str "acme.com"]⟩).1 =
        some "ann@acme.com" := by decide +kernel
  obtain rfl : message = "ann@acme.com" := Option.some.inj (hmessage.symm.trans hsame)
  have hword : EmailWord ("ann".toList ++ '@' :: ("acme".toList ++ '.' :: "com".toList)) :=
    .mk (by decide) (forall_mem_of_all (by decide)) (by decide) (forall_mem_of_all (by decide))
      (by decide) (forall_mem_of_all (by decide))
  exact hemail [] _ [] (by decide) (emailRe_spells.mpr hword)

/-- `logger.info("cc%s@acme.com", "x")`: the placeholder goes with the address. -/
example : getMessage noPrinters (PIIRedactionFilter.filter redact
    ⟨[], 20, .str "cc%s@acme.com", .tuple [.str "x"]⟩).1 = none := by decide +kernel

end LinkedOut
