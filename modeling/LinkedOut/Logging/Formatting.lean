/-
  `%` formatting as `LogRecord.getMessage` uses it.

  * `lex`: a template as letters and conversions. A conversion is `%`, a key in parentheses,
    a specification (flags, width, precision, a length modifier) and its type.
  * `fill`: the conversions take the arguments and print them. An argument is taken from the
    tuple in turn, or is what the last key named in the dictionary; before any key it is
    the dictionary itself, once.
  * `lex_eq_some`: the templates that can be read are the texts of segments that are well
    formed.

  What `repr`, `ascii` and the float conversions print, and all there is to print of objects
  other than strings and integers, is a parameter (`Printers`). A lone surrogate under `%c`
  is U+0000 here.
-/
import LinkedOut.Logging
import LinkedOut.Security

namespace LinkedOut

/-! ## Reading a template -/

/-- `%`, a key, the specification as it stands there, and the type. -/
structure Conversion where
  key : Option (List Char)
  spec : List Char
  type : Char
deriving DecidableEq

inductive Segment
  | letter (c : Char)
  | conversion (k : Conversion)
deriving DecidableEq

def isFlag (c : Char) : Bool := c ∈ ['-', '+', ' ', '#', '0']

def isLengthModifier (c : Char) : Bool := c ∈ ['h', 'l', 'L']

/-- What can stand between the key and the type. -/
def isSpecChar (c : Char) : Bool :=
  isFlag c || c.isDigit || c == '.' || c == '*' || isLengthModifier c

def isConversionType (c : Char) : Bool :=
  c ∈ ['s', 'r', 'a', 'd', 'i', 'u', 'o', 'x', 'X', 'e', 'E', 'f', 'F', 'g', 'G', 'c', '%']

/-- A width or a precision. -/
inductive Amount
  | absent
  | star
  | digits (n : Nat)
deriving DecidableEq

structure Spec where
  flags : List Char
  width : Amount
  precision : Amount
deriving DecidableEq

/-- `PY_SSIZE_T_MAX` -/
def maxWidth : Nat := 9223372036854775807

/-- `INT_MAX` -/
def maxPrecision : Nat := 2147483647

def decimalValue (digits : List Char) : Nat :=
  digits.foldl (fun n c => 10 * n + (c.toNat - '0'.toNat)) 0

def readAmount (max : Nat) (t : List Char) : Option (Amount × List Char) :=
  match t with
  | '*' :: t => some (.star, t)
  | t =>
    let digits := t.takeWhile Char.isDigit
    if digits = [] then some (.absent, t)
    else if decimalValue digits ≤ max then
      some (.digits (decimalValue digits), t.dropWhile Char.isDigit)
    else none

/-- A dot without digits asks for precision 0. -/
def readPrecision (t : List Char) : Option (Amount × List Char) :=
  match t with
  | '.' :: t =>
    (readAmount maxPrecision t).map fun
      | (.absent, t) => (.digits 0, t)
      | read => read
  | t => some (.absent, t)

def readSpec (t : List Char) : Option Spec := do
  let (width, t') ← readAmount maxWidth (t.dropWhile isFlag)
  let (precision, t') ← readPrecision t'
  let t' :=
    match t' with
    | c :: t' => if isLengthModifier c then t' else c :: t'
    | [] => []
  if t' = [] then some ⟨t.takeWhile isFlag, width, precision⟩ else none

/-- Where the reader stands: in the text, behind a `%`, in a key (with its open parentheses
    and what is read of it) or in a specification. -/
inductive Mode
  | text
  | start
  | key (depth : Nat) (read : List Char)
  | spec (key : Option (List Char)) (read : List Char)
deriving DecidableEq

/-- A character behind the key. -/
def readSpecChar (key : Option (List Char)) (read : List Char) (c : Char) :
    Option (Mode × List Segment) :=
  if isSpecChar c then some (.spec key (read ++ [c]), [])
  else if isConversionType c && (readSpec read).isSome then
    some (.text, [.conversion ⟨key, read, c⟩])
  else none

/-- A `)` in a key. -/
def closeParen (read : List Char) : Nat → Mode
  | 0 => .spec (some read) []
  | depth + 1 => .key depth (read ++ [')'])

def readChar : Mode → Char → Option (Mode × List Segment)
  | .text, c => if c = '%' then some (.start, []) else some (.text, [.letter c])
  | .start, c => if c = '(' then some (.key 0 [], []) else readSpecChar none [] c
  | .key depth read, c =>
    if c = '(' then some (.key (depth + 1) (read ++ [c]), [])
    else if c = ')' then some (closeParen read depth, [])
    else some (.key depth (read ++ [c]), [])
  | .spec key read, c => readSpecChar key read c

/-- Nothing where a conversion is incomplete, malformed or unsupported. -/
def lex : Mode → List Char → Option (List Segment)
  | mode, [] => if mode = .text then some [] else none
  | mode, c :: t => do
    let (mode, out) ← readChar mode c
    let segments ← lex mode t
    some (out ++ segments)

/-! ## Printing an argument -/

/-- What a conversion can be given: a value, or the dictionary itself. -/
inductive FormatArg
  | value (v : LogValue)
  | mapping (entries : List (String × LogValue))

structure Printers where
  repr : FormatArg → List Char
  ascii : FormatArg → List Char
  float : List Char → Option Nat → Char → Nat → Option (List Char)
  object : Char → String → Option (List Char)

/-- A part of a message: a stretch of the template, a string as it is, or another print. -/
inductive Part
  | literal (w : List Char)
  | string (w : List Char)
  | other (w : List Char)
deriving DecidableEq

def Part.text : Part → List Char
  | .literal w => w
  | .string w => w
  | .other w => w

/-- The part is all text of the template or of a string. -/
def Part.isText : Part → Bool
  | .other _ => false
  | _ => true

def partsText (parts : List Part) : List Char := parts.flatMap Part.text

/-- Spaces up to a width, on the right where the flag `-` or a negative width asks so. -/
def padded (flags : List Char) (width : Option Int) (w : List Char) : List Char :=
  let width := width.getD 0
  let spaces := List.replicate (width.natAbs - w.length) ' '
  if '-' ∈ flags ∨ width < 0 then w ++ spaces else spaces ++ w

/-- `%s`, `%r` and `%a`: cut at the precision, then padded. -/
def printText (flags : List Char) (width precision : Option Int) (w : List Char) : List Char :=
  padded flags width (match precision with
    | none => w
    | some n => w.take n.toNat)

/-- A number: its sign, a prefix and its digits. Zeros go before the digits, spaces before the
    sign. -/
def printNumber (flags : List Char) (width : Option Int) (negative : Bool)
    (base digits : List Char) : List Char :=
  let sign :=
    if negative then ['-'] else if '+' ∈ flags then ['+'] else if ' ' ∈ flags then [' '] else []
  let left := '-' ∈ flags ∨ width.getD 0 < 0
  if '0' ∈ flags ∧ ¬ left then
    let zeros := (width.getD 0).natAbs - (sign ++ (base ++ digits)).length
    sign ++ (base ++ (List.replicate zeros '0' ++ digits))
  else padded flags width (sign ++ (base ++ digits))

/-- `%d`, `%i`, `%u`, `%o`, `%x` and `%X`. -/
def printInteger (flags : List Char) (width precision : Option Int) (type : Char) (n : Int) :
    List Char :=
  let digits :=
    match type with
    | 'o' => Nat.toDigits 8 n.natAbs
    | 'x' => Nat.toDigits 16 n.natAbs
    | 'X' => (Nat.toDigits 16 n.natAbs).map Char.toUpper
    | _ => Nat.toDigits 10 n.natAbs
  let base := if '#' ∈ flags ∧ type ∈ ['o', 'x', 'X'] then ['0', type] else []
  let zeros := (precision.getD 0).toNat - digits.length
  printNumber flags width (decide (n < 0)) base (List.replicate zeros '0' ++ digits)

/-- The string a text conversion pads. -/
def textOf (p : Printers) (type : Char) (v : FormatArg) : List Char :=
  match type, v with
  | 's', .value (.str t) => t.toList
  | 's', .value (.int n) => (toString n).toList
  | 'a', v => p.ascii v
  | _, v => p.repr v

def convertText (p : Printers) (flags : List Char) (width precision : Option Int) (type : Char)
    (v : FormatArg) : Option Part :=
  match v with
  | .value (.obj o) =>
    (p.object type o).map fun w => .other (printText flags width precision w)
  | v =>
    let w := printText flags width precision (textOf p type v)
    match type, v with
    | 's', .value (.str t) => some (if w = t.toList then .string w else .other w)
    | _, _ => some (.other w)

/-- `%c` -/
def convertChar (p : Printers) (flags : List Char) (width : Option Int) (v : FormatArg) :
    Option Part :=
  match v with
  | .value (.str t) =>
    if t.toList.length = 1 then some (.other (padded flags width t.toList)) else none
  | .value (.int n) =>
    if 0 ≤ n ∧ n < 0x110000 then some (.other (padded flags width [Char.ofNat n.toNat]))
    else none
  | .value (.obj o) => (p.object 'c' o).map fun w => .other (padded flags width w)
  | .mapping _ => none

/-- The conversions of numbers. -/
def convertNumber (p : Printers) (flags : List Char) (width precision : Option Int) (type : Char)
    (v : FormatArg) : Option Part :=
  match v with
  | .value (.int n) =>
    if type ∈ ['d', 'i', 'u', 'o', 'x', 'X'] then
      some (.other (printInteger flags width precision type n))
    else
      (p.float flags (precision.map Int.toNat) type n.natAbs).map fun digits =>
        .other (printNumber flags width (decide (n < 0)) [] digits)
  | .value (.obj o) => (p.object type o).map fun w => .other (padded flags width w)
  | _ => none

def convert (p : Printers) (flags : List Char) (width precision : Option Int) (type : Char)
    (v : FormatArg) : Option Part :=
  if type ∈ ['s', 'r', 'a'] then convertText p flags width precision type v
  else if type = 'c' then convertChar p flags width v
  else convertNumber p flags width precision type v

/-! ## Taking the arguments -/

/-- The dictionary, if there is one, and what the next conversions are given. -/
structure ArgState where
  entries : Option (List (String × LogValue))
  next : List FormatArg

def LogArgs.start : LogArgs → ArgState
  | .none => ⟨Option.none, []⟩
  | .tuple values => ⟨Option.none, values.map .value⟩
  | .dict items => ⟨some items, [.mapping items]⟩

namespace ArgState

/-- `unicode_format_getnextarg` -/
def take (s : ArgState) : Option (FormatArg × ArgState) :=
  match s.next with
  | [] => none
  | v :: next => some (v, { s with next := next })

/-- A key needs a mapping that has it. -/
def enter (s : ArgState) : Option (List Char) → Option ArgState
  | none => some s
  | some key => do
    let entries ← s.entries
    let v ← entries.lookup (String.ofList key)
    some { s with next := [.value v] }

/-- A `*` takes an integer. -/
def takeAmount (max : Nat) (s : ArgState) : Amount → Option (Option Int × ArgState)
  | .absent => some (none, s)
  | .digits n => some (some n, s)
  | .star => do
    let (v, s) ← s.take
    match v with
    | .value (.int n) => if -(max + 1 : Int) ≤ n ∧ n ≤ max then some (some n, s) else none
    | _ => none

end ArgState

/-- One conversion. -/
def Conversion.fill (p : Printers) (k : Conversion) (s : ArgState) : Option (Part × ArgState) := do
  let s ← s.enter k.key
  let spec ← readSpec k.spec
  let (width, s) ← s.takeAmount maxWidth spec.width
  let (precision, s) ← s.takeAmount maxPrecision spec.precision
  if k.type = '%' then some (.other ['%'], s)
  else
    let (v, s) ← s.take
    let part ← convert p spec.flags width precision k.type v
    some (part, s)

/-- A letter of the template joins the stretch behind it. -/
def addLetter (c : Char) : List Part → List Part
  | .literal w :: parts => .literal (c :: w) :: parts
  | parts => .literal [c] :: parts

/-- Of a tuple nothing may be left over. -/
def fill (p : Printers) : List Segment → ArgState → Option (List Part)
  | [], s => if s.entries.isNone && !s.next.isEmpty then none else some []
  | .letter c :: segments, s => (fill p segments s).map (addLetter c)
  | .conversion k :: segments, s => do
    let (part, s) ← k.fill p s
    let parts ← fill p segments s
    some (part :: parts)

def LogArgs.isEmpty : LogArgs → Bool
  | .none => true
  | .tuple values => values.isEmpty
  | .dict items => items.isEmpty

/-- `str(record.msg)` -/
def LogValue.text : LogValue → String
  | .str text => text
  | .int n => toString n
  | .obj repr => repr

/-- `LogRecord.getMessage` -/
def getMessage (p : Printers) (record : LogRecord) : Option String :=
  if record.args.isEmpty then some record.msg.text
  else do
    let segments ← lex .text record.msg.text.toList
    let parts ← fill p segments record.args.start
    some (String.ofList (partsText parts))

/-! ## Templates that can be read -/

/-- How deep in parentheses a character of a key leads, if it does not close the key. -/
def depthStep (depth : Nat) (c : Char) : Option Nat :=
  if c = '(' then some (depth + 1)
  else if c = ')' then
    match depth with
    | 0 => none
    | depth + 1 => some depth
  else some depth

def depthAfter (depth : Nat) (w : List Char) : Option Nat := w.foldlM depthStep depth

def keyText : Option (List Char) → List Char
  | none => []
  | some key => '(' :: (key ++ [')'])

def Conversion.text (k : Conversion) : List Char :=
  '%' :: (keyText k.key ++ (k.spec ++ [k.type]))

structure Conversion.WellFormed (k : Conversion) : Prop where
  key : ∀ key, k.key = some key → depthAfter 0 key = some 0
  spec : ∀ c ∈ k.spec, isSpecChar c = true
  reads : (readSpec k.spec).isSome = true
  type : isConversionType k.type = true

namespace Segment

def text : Segment → List Char
  | letter c => [c]
  | conversion k => k.text

def WellFormed : Segment → Prop
  | letter c => c ≠ '%'
  | conversion k => k.WellFormed

end Segment

def segmentsText (segments : List Segment) : List Char := segments.flatMap Segment.text

@[simp] theorem segmentsText_cons (s : Segment) (segments : List Segment) :
    segmentsText (s :: segments) = s.text ++ segmentsText segments := rfl

@[simp] theorem segmentsText_append (s t : List Segment) :
    segmentsText (s ++ t) = segmentsText s ++ segmentsText t := List.flatMap_append

theorem segmentsText_letters (w : List Char) : segmentsText (w.map .letter) = w := by
  induction w with
  | nil => rfl
  | cons c w ih => rw [List.map_cons, segmentsText_cons, ih]; rfl

/-- No type is a character of a specification. -/
theorem not_isSpecChar_of_isConversionType {c : Char} (h : isConversionType c = true) :
    isSpecChar c = false := by
  have hall : ∀ c ∈ ['s', 'r', 'a', 'd', 'i', 'u', 'o', 'x', 'X', 'e', 'E', 'f', 'F', 'g', 'G',
      'c', '%'], isSpecChar c = false := forall_mem_of_all (by decide)
  exact hall c (by simpa [isConversionType] using h)

theorem ne_paren_of_isConversionType {c : Char} (h : isConversionType c = true) : c ≠ '(' := by
  rintro rfl
  exact absurd h (by decide)

theorem ne_paren_of_isSpecChar {c : Char} (h : isSpecChar c = true) : c ≠ '(' := by
  rintro rfl
  exact absurd h (by decide)

section

variable {key : Option (List Char)} {read spec t : List Char} {type : Char}

theorem lex_cons (mode : Mode) (c : Char) (t : List Char) :
    lex mode (c :: t) =
      (readChar mode c).bind fun r => (lex r.1 t).map fun segments => r.2 ++ segments := by
  rw [lex]
  cases readChar mode c with
  | none => rfl
  | some r =>
    obtain ⟨mode', out⟩ := r
    change (lex mode' t).bind _ = (lex mode' t).map _
    rw [Option.map_eq_bind]
    rfl

theorem lex_letter {c : Char} (hc : c ≠ '%') (t : List Char) :
    lex .text (c :: t) = (lex .text t).map (.letter c :: ·) := by
  rw [lex_cons, readChar, if_neg hc]
  rfl

theorem lex_spec (hspec : ∀ c ∈ spec, isSpecChar c = true)
    (hreads : (readSpec (read ++ spec)).isSome = true) (htype : isConversionType type = true) :
    lex (.spec key read) (spec ++ type :: t) =
      (lex .text t).map (.conversion ⟨key, read ++ spec, type⟩ :: ·) := by
  induction spec generalizing read with
  | nil =>
    rw [List.append_nil] at hreads ⊢
    rw [List.nil_append, lex_cons, readChar, readSpecChar,
      not_isSpecChar_of_isConversionType htype, htype, hreads]
    rfl
  | cons c spec ih =>
    rw [List.cons_append, lex_cons, readChar, readSpecChar, if_pos (hspec c List.mem_cons_self)]
    have hreads' : (readSpec ((read ++ [c]) ++ spec)).isSome = true := by simpa using hreads
    have hcons := ih (fun c hc => hspec c (List.mem_cons_of_mem _ hc)) hreads'
    change (lex (.spec key (read ++ [c])) (spec ++ type :: t)).map _ = _
    rw [hcons]
    simp [Function.comp_def]

@[simp] theorem depthAfter_nil (depth : Nat) : depthAfter depth [] = some depth := rfl

theorem depthAfter_cons (depth : Nat) (c : Char) (w : List Char) :
    depthAfter depth (c :: w) = (depthStep depth c).bind (depthAfter · w) := List.foldlM_cons

theorem depthAfter_append (depth : Nat) (v w : List Char) :
    depthAfter depth (v ++ w) = (depthAfter depth v).bind (depthAfter · w) := List.foldlM_append

/-- A character that does not close the key is read into it. -/
theorem readChar_key {depth depth' : Nat} {c : Char} (h : depthStep depth c = some depth') :
    readChar (.key depth read) c = some (.key depth' (read ++ [c]), []) := by
  unfold depthStep at h
  rw [readChar]
  split
  · rename_i hopen
    rw [if_pos hopen] at h
    rw [← Option.some.inj h]
  · rename_i hopen
    rw [if_neg hopen] at h
    split
    · rename_i hclose
      rw [if_pos hclose] at h
      subst hclose
      cases depth with
      | zero => cases h
      | succ depth => rw [← Option.some.inj h, closeParen]
    · rename_i hclose
      rw [if_neg hclose] at h
      rw [← Option.some.inj h]

theorem lex_key {depth : Nat} {w : List Char} (hdepth : depthAfter depth w = some 0) :
    lex (.key depth read) (w ++ ')' :: t) = lex (.spec (some (read ++ w)) []) t := by
  induction w generalizing depth read with
  | nil =>
    obtain rfl : depth = 0 := Option.some.inj hdepth
    rw [List.nil_append, lex_cons, List.append_nil]
    change (lex (.spec (some read) []) t).map _ = _
    simp
  | cons c w ih =>
    rw [depthAfter_cons, Option.bind_eq_some_iff] at hdepth
    obtain ⟨depth', hstep, hrest⟩ := hdepth
    rw [List.cons_append, lex_cons, readChar_key hstep]
    change (lex (.key depth' (read ++ [c])) (w ++ ')' :: t)).map _ = _
    rw [ih hrest]
    simp

theorem lex_percent (t : List Char) : lex .text ('%' :: t) = lex .start t := by
  rw [lex_cons]
  change (lex .start t).map _ = _
  simp

theorem lex_open (t : List Char) : lex .start ('(' :: t) = lex (.key 0 []) t := by
  rw [lex_cons]
  change (lex (.key 0 []) t).map _ = _
  simp

theorem lex_start (ht : ∀ c, t.head? = some c → c ≠ '(') :
    lex .start t = lex (.spec none []) t := by
  cases t with
  | nil => rfl
  | cons c t => rw [lex_cons, lex_cons, readChar, readChar, if_neg (ht c rfl)]

/-- What follows a `%` without a key is no parenthesis. -/
theorem head_spec (hspec : ∀ c ∈ spec, isSpecChar c = true) (htype : isConversionType type = true) :
    ∀ c, (spec ++ type :: t).head? = some c → c ≠ '(' := by
  intro c hc
  cases spec with
  | nil =>
    obtain rfl : type = c := Option.some.inj hc
    exact ne_paren_of_isConversionType htype
  | cons x spec =>
    obtain rfl : x = c := Option.some.inj hc
    exact ne_paren_of_isSpecChar (hspec x List.mem_cons_self)

/-- A well-formed segment is read as what it is. -/
theorem lex_segment {s : Segment} (hs : s.WellFormed) (t : List Char) :
    lex .text (s.text ++ t) = (lex .text t).map (s :: ·) := by
  cases s with
  | letter c => exact lex_letter hs t
  | conversion k =>
    obtain ⟨key, spec, type⟩ := k
    obtain ⟨hkey, hspec, hreads, htype⟩ := hs
    have hend : ∀ key, lex (.spec key []) (spec ++ type :: t) =
        (lex .text t).map (.conversion ⟨key, spec, type⟩ :: ·) :=
      fun _ => lex_spec hspec (List.nil_append spec ▸ hreads) htype
    cases key with
    | none =>
      have htext : (Segment.conversion ⟨none, spec, type⟩).text ++ t =
          '%' :: (spec ++ type :: t) := by simp [Segment.text, Conversion.text, keyText]
      rw [htext, lex_percent, lex_start (head_spec hspec htype), hend none]
    | some key =>
      have htext : (Segment.conversion ⟨some key, spec, type⟩).text ++ t =
          '%' :: '(' :: (key ++ ')' :: (spec ++ type :: t)) := by
        simp [Segment.text, Conversion.text, keyText]
      rw [htext, lex_percent, lex_open, lex_key (hkey key rfl), List.nil_append, hend (some key)]

/-- What is well formed is read. -/
theorem lex_segmentsText {segments : List Segment} (h : ∀ s ∈ segments, s.WellFormed)
    (t : List Char) :
    lex .text (segmentsText segments ++ t) = (lex .text t).map (segments ++ ·) := by
  induction segments with
  | nil => simp [segmentsText]
  | cons s segments ih =>
    rw [segmentsText_cons, List.append_assoc, lex_segment (h s List.mem_cons_self),
      ih fun s hs => h s (List.mem_cons_of_mem _ hs)]
    simp [Function.comp_def]

/-- What the reader has read since the last segment. -/
def Mode.pending : Mode → List Char
  | .text => []
  | .start => ['%']
  | .key _ read => '%' :: '(' :: read
  | .spec key read => '%' :: (keyText key ++ read)

/-- The reader is where a well-formed segment can go on. -/
def Mode.Sound : Mode → Prop
  | .text => True
  | .start => True
  | .key depth read => depthAfter 0 read = some depth
  | .spec key read =>
    (∀ w, key = some w → depthAfter 0 w = some 0) ∧ ∀ c ∈ read, isSpecChar c = true

theorem readSpecChar_sound {key : Option (List Char)} {c : Char} {mode' : Mode}
    {out : List Segment} (hmode : (Mode.spec key read).Sound)
    (h : readSpecChar key read c = some (mode', out)) :
    mode'.Sound ∧ (∀ s ∈ out, s.WellFormed) ∧
      (Mode.spec key read).pending ++ [c] = segmentsText out ++ mode'.pending := by
  obtain ⟨hkey, hread⟩ := hmode
  unfold readSpecChar at h
  split at h
  · rename_i hc
    cases h
    refine ⟨⟨hkey, fun x hx => ?_⟩, by simp, by simp [Mode.pending, segmentsText]⟩
    rcases List.mem_append.mp hx with hx | hx
    · exact hread x hx
    · rw [List.mem_singleton.mp hx]
      exact hc
  · split at h
    · rename_i hc
      cases h
      rw [Bool.and_eq_true] at hc
      refine ⟨trivial, fun s hs => ?_, by
        simp [Mode.pending, segmentsText, Segment.text, Conversion.text]⟩
      rw [List.mem_singleton.mp hs]
      exact ⟨hkey, hread, hc.2, hc.1⟩
    · cases h

/-- Only a `)` at depth 0 closes the key. -/
theorem closes_of_depthStep {depth : Nat} {c : Char} (h : depthStep depth c = none) :
    c = ')' ∧ depth = 0 := by
  unfold depthStep at h
  split at h
  · cases h
  · split at h
    · rename_i hclose
      cases depth with
      | zero => exact ⟨hclose, rfl⟩
      | succ depth => cases h
    · cases h

/-- One character keeps what is read. -/
theorem readChar_sound {mode mode' : Mode} {c : Char} {out : List Segment} (hmode : mode.Sound)
    (h : readChar mode c = some (mode', out)) :
    mode'.Sound ∧ (∀ s ∈ out, s.WellFormed) ∧
      mode.pending ++ [c] = segmentsText out ++ mode'.pending := by
  cases mode with
  | text =>
    rw [readChar] at h
    split at h
    · rename_i hc
      cases h
      exact ⟨trivial, by simp, by simp [Mode.pending, segmentsText, hc]⟩
    · rename_i hc
      cases h
      refine ⟨trivial, fun s hs => ?_, rfl⟩
      rw [List.mem_singleton.mp hs]
      exact hc
  | start =>
    rw [readChar] at h
    split at h
    · rename_i hc
      cases h
      exact ⟨rfl, by simp, by simp [Mode.pending, segmentsText, hc]⟩
    · exact readSpecChar_sound ⟨by simp, by simp⟩ h
  | key depth read =>
    cases hstep : depthStep depth c with
    | some depth' =>
      rw [readChar_key hstep] at h
      cases h
      refine ⟨?_, by simp, by simp [Mode.pending, segmentsText]⟩
      have hread : depthAfter 0 read = some depth := hmode
      rw [Mode.Sound, depthAfter_append, hread]
      simp [depthAfter_cons, hstep]
    | none =>
      obtain ⟨rfl, rfl⟩ := closes_of_depthStep hstep
      cases h
      refine ⟨⟨fun w hw => ?_, by simp⟩, by simp, ?_⟩
      · rw [← Option.some.inj hw]
        exact hmode
      · simp [Mode.pending, segmentsText, keyText, closeParen]
  | spec key read => exact readSpecChar_sound hmode h

/-- What is read is well formed and is the text. -/
theorem lex_sound {mode : Mode} (hmode : mode.Sound) {segments : List Segment}
    (h : lex mode t = some segments) :
    mode.pending ++ t = segmentsText segments ∧ ∀ s ∈ segments, s.WellFormed := by
  induction t generalizing mode segments with
  | nil =>
    unfold lex at h
    split at h
    · rename_i htext
      cases h
      subst htext
      exact ⟨rfl, by simp⟩
    · cases h
  | cons c t ih =>
    rw [lex_cons, Option.bind_eq_some_iff] at h
    obtain ⟨⟨mode', out⟩, hread, h⟩ := h
    obtain ⟨rest, hrest, rfl⟩ := Option.map_eq_some_iff.mp h
    obtain ⟨hmode', hout, hpending⟩ := readChar_sound hmode hread
    obtain ⟨htext, hwell⟩ := ih hmode' hrest
    constructor
    · rw [segmentsText_append, ← htext, ← List.append_assoc, ← hpending, List.append_assoc]
      rfl
    · intro s hs
      rcases List.mem_append.mp hs with hs | hs
      · exact hout s hs
      · exact hwell s hs

end

/-- The templates that can be read are the texts of well-formed segments. -/
theorem lex_eq_some {t : List Char} {segments : List Segment} :
    lex .text t = some segments ↔
      t = segmentsText segments ∧ ∀ s ∈ segments, s.WellFormed := by
  constructor
  · intro h
    have hmode : Mode.text.Sound := trivial
    exact lex_sound hmode h
  · rintro ⟨rfl, hwell⟩
    have hread := lex_segmentsText hwell []
    rw [List.append_nil] at hread
    rw [hread]
    simp [lex]

end LinkedOut
