import Gale.CriticalityAxis

namespace Gale.DataOverlap

open CriticalityAxis (isWhitespace)

abbrev Text := List Char

def U32 : Nat := 4294967296
def U64 : Nat := 18446744073709551616

-- From tools/xtask/src/gates/data_overlap.rs.
structure Seg where
  idx : Nat
  mem : Nat
  lo : Nat
  hi : Nat

def isHexDigit (c : Char) : Bool := c.isDigit || c ∈ "abcdefABCDEF".toList

def ESCAPES : Text := "\\\"'ntr".toList

-- The source counts bytes; a character it does not look at counts for its own.
def payloadLen : Text → Nat
  | [] => 0
  | [c] => c.utf8Size
  | [c, d] => if c = '\\' then if d ∈ ESCAPES then 1 else d.utf8Size else c.utf8Size + payloadLen [d]
  | c :: d :: e :: rest =>
    if c = '\\' then
      if d ∈ ESCAPES then 1 + payloadLen (e :: rest)
      else if isHexDigit d && isHexDigit e then 1 + payloadLen rest
      else d.utf8Size + payloadLen (e :: rest)
    else c.utf8Size + payloadLen (d :: e :: rest)

def value (digits : Text) : Nat := digits.foldl (fun n c => 10 * n + (c.toNat - 48)) 0

def numAfter (s : Text) : Option (Nat × Text) :=
  let s := s.dropWhile fun c => c = ' '
  let digits := s.takeWhile Char.isDigit
  if digits = [] ∨ U64 ≤ value digits then none
  else some (value digits, s.dropWhile Char.isDigit)

def expect (t s : Text) : Option (Text) :=
  if t.isPrefixOf s then some (s.drop t.length) else none

def trimStart (s : Text) : Text := s.dropWhile isWhitespace

inductive Parsed where
  | Active (seg : Seg)
  | Passive
  | Unknown

def memoryAt (s : Text) : Option (Nat × Text) :=
  match expect "(memory ".toList s with
  | none => some (0, s)
  | some s => do
    let (mem, s) ← numAfter s
    let s ← expect [')'] s
    some (mem, trimStart s)

-- The text up to the closing quote, and the rest from that quote on.
def closing : Text → Option (Text × Text)
  | [] => none
  | [c] => if c = '"' then some ([], [c]) else none
  | c :: d :: rest =>
    if c = '\\' then (closing rest).map fun (payload, left) => (c :: d :: payload, left)
    else if c = '"' then some ([], c :: d :: rest)
    else (closing (d :: rest)).map fun (payload, left) => (c :: payload, left)

def activeAt (idx mem : Nat) (s : Text) : Option (Seg × Text) := do
  let (off, s) ← numAfter s
  let s ← expect [')'] s
  let s ← expect ['"'] (trimStart s)
  let (payload, s) ← closing s
  some (⟨idx % U32, mem % U32, off, off + payloadLen payload⟩, s)

def headerAt (after : Text) : Option (Nat × Nat × Text) := do
  let (idx, s) ← numAfter after
  let s ← expect [';', ')'] s
  let (mem, s) ← memoryAt (trimStart s)
  some (idx, mem, s)

-- What follows the marker, and where the search goes on.
def segmentAt (after : Text) : Parsed × Text :=
  match headerAt after with
  | none => (.Unknown, after)
  | some (idx, mem, s) =>
    match expect "(i32.const ".toList s with
    | none => (if s.head? = some '"' then .Passive else .Unknown, after)
    | some s =>
      match activeAt idx mem s with
      | some (seg, left) => (.Active seg, left)
      | none => (.Unknown, after)

def MARKER : Text := "(data (;".toList

-- The number of characters that are still skipped makes the loop structural.
def parseFrom : Nat → Text → List Parsed
  | _, [] => []
  | skip + 1, _ :: rest => parseFrom skip rest
  | 0, c :: rest =>
    match expect MARKER (c :: rest) with
    | some after =>
      (segmentAt after).1 :: parseFrom (rest.length - (segmentAt after).2.length) rest
    | none => parseFrom 0 rest

def parseSegments (wat : Text) : List Parsed := parseFrom 0 wat

def Parsed.seg? : Parsed → Option Seg
  | .Active seg => some seg
  | _ => none

def Seg.overlaps (a b : Seg) : Bool := a.idx < b.idx && a.mem = b.mem && a.lo < b.hi && b.lo < a.hi

def overlaps (segs : List Seg) : List (Seg × Seg) :=
  segs.flatMap fun a => (segs.filter a.overlaps).map fun b => (a, b)

-- Pass has the segments it lists and how many passive ones it counts.
inductive Verdict where
  | Refused (unknown : Nat)
  | Pass (segs : List Seg) (passive : Nat)
  | Fail (segs : List Seg) (pairs : List (Seg × Seg))

def checkModule (wat : Text) : Verdict :=
  let parsed := parseSegments wat
  let unknown := parsed.countP fun p => match p with | .Unknown => true | _ => false
  let passive := parsed.countP fun p => match p with | .Passive => true | _ => false
  let segs := parsed.filterMap Parsed.seg?
  if unknown > 0 then .Refused unknown
  else if (overlaps segs).isEmpty then .Pass segs passive
  else .Fail segs (overlaps segs)

def IsPlain (c : Char) : Prop := c ≠ '"' ∧ c ≠ '\\'

-- One character or escape of a string of the text format.
inductive Element where
  | Plain (c : Char)
  | Named (c : Char)
  | Hex (high low : Char)
  | Unicode (digits : Text)

namespace Element

def Legal : Element → Prop
  | .Plain c => IsPlain c
  | .Named c => c ∈ ESCAPES
  | .Hex high low => isHexDigit high ∧ isHexDigit low
  | .Unicode digits => digits ≠ [] ∧ ∀ c ∈ digits, isHexDigit c

def text : Element → Text
  | .Plain c => [c]
  | .Named c => ['\\', c]
  | .Hex high low => ['\\', high, low]
  | .Unicode digits => '\\' :: 'u' :: '\x7b' :: digits ++ ['\x7d']

def hexValue (digits : Text) : Nat :=
  digits.foldl (fun n c => 16 * n + "0123456789abcdef".toList.idxOf c.toLower) 0

def bytes : Element → Nat
  | .Plain c => c.utf8Size
  | .Named _ | .Hex _ _ => 1
  | .Unicode digits => (Char.ofNat (hexValue digits)).utf8Size

end Element

def Numeral (digits : Text) : Prop :=
  digits ≠ [] ∧ (∀ c ∈ digits, c.isDigit) ∧ value digits < U32

structure Place where
  memory : Option (Text)
  negative : Bool
  offset : Text

def Place.text (p : Place) : Text :=
  (p.memory.map fun m => " (memory ".toList ++ m ++ [')']).getD [] ++ " (i32.const ".toList ++
    (if p.negative then ['-'] else []) ++ p.offset ++ [')']

-- A passive segment has no place.
structure Segment where
  name : Option (Text)
  index : Text
  place : Option Place
  payload : List Element

namespace Segment

def Legal (s : Segment) : Prop :=
  Numeral s.index ∧ (∀ e ∈ s.payload, e.Legal) ∧
    ∀ p ∈ s.place, Numeral p.offset ∧ ∀ m ∈ p.memory, Numeral m

def payloadText (s : Segment) : Text := s.payload.flatMap Element.text

def text (s : Segment) : Text :=
  "(data ".toList ++ (s.name.map fun n => '$' :: n ++ [' ']).getD [] ++ ['(', ';'] ++ s.index ++
    [';', ')'] ++ (s.place.map Place.text).getD [] ++ [' ', '"'] ++ s.payloadText ++ ['"', ')']

end Segment

structure Range where
  index : Nat
  mem : Nat
  lo : Nat
  size : Nat

def Segment.range? (s : Segment) : Option Range :=
  s.place.map fun p =>
    { index := value s.index
      mem := value (p.memory.getD [])
      lo := if p.negative then U32 - value p.offset else value p.offset
      size := (s.payload.map Element.bytes).sum }

-- Segments with the text of the other fields before and after them.
structure Module where
  first : Text
  body : List (Segment × Text)

namespace Module

def bodyText (body : List (Segment × Text)) : Text := body.flatMap fun s => s.1.text ++ s.2

def text (m : Module) : Text := m.first ++ bodyText m.body

def ranges (m : Module) : List Range := m.body.filterMap fun s => s.1.range?

structure Legal (m : Module) : Prop where
  segments : ∀ s ∈ m.body, s.1.Legal
  distinct : (m.body.map fun s => value s.1.index).Nodup

def Counts (seg : Seg) (r : Range) : Prop := seg.idx = r.index ∧ seg.lo = r.lo ∧ r.lo + r.size ≤ seg.hi

def NoFalsePass (m : Module) : Prop :=
  ∀ segs passive, checkModule m.text = .Pass segs passive → List.Forall₂ Counts segs m.ranges ∧
    m.ranges.Pairwise fun a b => a.mem = b.mem → a.lo + a.size ≤ b.lo ∨ b.lo + b.size ≤ a.lo

end Module

-- Whether segments may have names, and whether a passive payload or the text of another field
-- may have the marker in it.
structure Style where
  names : Bool
  passives : Bool
  others : Bool

structure Module.Follows (m : Module) (style : Style) : Prop where
  names : style.names = false → ∀ s ∈ m.body, s.1.name = none
  passives : style.passives = false → ∀ s ∈ m.body, s.1.place = none → ¬ MARKER <:+: s.1.payloadText
  others : style.others = false → ¬ MARKER <:+: m.first ∧ ∀ s ∈ m.body, ¬ MARKER <:+: s.2

theorem expect_append (t s : Text) : expect t (t ++ s) = some s := by
  simp [expect]

variable {c : Char} {cs x : Text}

theorem numAfter_append {digits rest : Text} (h : Numeral digits) (hc : c.isDigit = false) :
    numAfter (digits ++ c :: rest) = some (value digits, c :: rest) := by
  obtain ⟨hn, hd, hv⟩ := h
  have hs : (digits ++ c :: rest).dropWhile (fun c => decide (c = ' ')) = digits ++ c :: rest := by
    obtain ⟨d, ds, rfl⟩ := List.exists_cons_of_ne_nil hn
    have hne : d ≠ ' ' := by
      rintro rfl
      exact absurd (hd ' ' (by simp)) (by decide)
    simp [hne]
  have hlt : value digits < U64 := hv.trans (by decide)
  simp only [numAfter, hs, List.takeWhile_append_of_pos hd, List.dropWhile_append_of_pos hd,
    List.takeWhile_cons, List.dropWhile_cons, hc, Bool.false_eq_true, if_false, List.append_nil]
  exact if_neg (not_or.mpr ⟨hn, Nat.not_le.mpr hlt⟩)

theorem closing_plain (h : ∀ c ∈ cs, IsPlain c) (s : Text) :
    closing (cs ++ s) = (closing s).map fun (payload, left) => (cs ++ payload, left) := by
  induction cs with
  | nil => simp
  | cons c cs ih =>
    obtain ⟨hc, hcs⟩ := List.forall_mem_cons.mp h
    rw [List.cons_append]
    cases hs : cs ++ s with
    | nil =>
      obtain ⟨-, rfl⟩ := List.append_eq_nil_iff.mp hs
      simp [closing, hc.1]
    | cons d rest =>
      simp only [closing, hc.1, hc.2, if_false, ← hs, ih hcs, Option.map_map]
      rfl

theorem payloadLen_cons (h : c ≠ '\\') (s : Text) : payloadLen (c :: s) = c.utf8Size + payloadLen s := by
  match s with
  | [] | [d] | d :: e :: rest => simp [payloadLen, h]

theorem payloadLen_plain (h : ∀ c ∈ cs, IsPlain c) (s : Text) :
    payloadLen (cs ++ s) = (cs.map Char.utf8Size).sum + payloadLen s := by
  induction cs with
  | nil => simp
  | cons c cs ih =>
    obtain ⟨hc, hcs⟩ := List.forall_mem_cons.mp h
    rw [List.cons_append, payloadLen_cons hc.2, ih hcs, List.map_cons, List.sum_cons, Nat.add_assoc]

theorem isPlain_of_isHexDigit (h : isHexDigit c = true) : IsPlain c := by
  constructor <;> rintro rfl <;> exact absurd h (by decide)

theorem not_mem_escapes (h : isHexDigit c = true) : c ∉ ESCAPES := by
  intro hm
  have hall : ∀ d ∈ ESCAPES, isHexDigit d = false := by simp [ESCAPES, isHexDigit]
  exact absurd h (by simp [hall c hm])

theorem unicode_plain {ds : Text} (h : ∀ c ∈ ds, isHexDigit c = true) : ∀ c ∈ '\x7b' :: ds ++ ['\x7d'], IsPlain c := by
  intro c hc
  rcases List.mem_append.mp hc with hm | hm
  · rcases List.mem_cons.mp hm with rfl | hm
    · exact ⟨by decide, by decide⟩
    · exact isPlain_of_isHexDigit (h c hm)
  · rw [List.mem_singleton.mp hm]
    exact ⟨by decide, by decide⟩

namespace Element

variable {e : Element} (h : e.Legal)
include h

theorem closing_text (rest : Text) :
    closing (e.text ++ rest) = (closing rest).map fun (payload, left) => (e.text ++ payload, left) := by
  cases e with
  | Plain c => exact closing_plain (List.forall_mem_singleton.mpr h) rest
  | Named c => simp [text, closing]
  | Hex high low =>
    have hl := closing_plain (List.forall_mem_singleton.mpr (isPlain_of_isHexDigit h.2)) rest
    rw [List.singleton_append] at hl
    simp [text, closing, hl, Function.comp_def]
  | Unicode ds =>
    have hu := closing_plain (unicode_plain h.2) rest
    simp only [List.cons_append, List.append_assoc, List.nil_append] at hu
    simp [text, closing, hu, Function.comp_def]

-- A \u escape has four characters or more, and no character has more bytes.
theorem payloadLen_text (rest : Text) : e.bytes + payloadLen rest ≤ payloadLen (e.text ++ rest) := by
  cases e with
  | Plain c => exact (payloadLen_cons h.2 rest).ge
  | Named c =>
    cases rest with
    | nil => simp [text, bytes, payloadLen, show c ∈ ESCAPES from h]
    | cons d rest => simp [text, bytes, payloadLen, show c ∈ ESCAPES from h]
  | Hex high low => simp [text, bytes, payloadLen, not_mem_escapes h.1, h.1, h.2]
  | Unicode digits =>
    have hu := payloadLen_plain (unicode_plain h.2) rest
    have hle := Char.utf8Size_le_four (Char.ofNat (hexValue digits))
    obtain ⟨d, ds, rfl⟩ := List.exists_cons_of_ne_nil h.1
    have hd := d.utf8Size_pos
    have heq : payloadLen ((Unicode (d :: ds)).text ++ rest) =
        1 + payloadLen ('\x7b' :: (d :: ds) ++ ['\x7d'] ++ rest) := rfl
    rw [heq, hu]
    simp only [bytes, List.cons_append, List.map_cons, List.map_append, List.sum_cons, List.sum_append,
      show Char.utf8Size '\x7b' = 1 from rfl, show Char.utf8Size '\x7d' = 1 from rfl, List.map_nil,
      List.sum_nil]
    omega

omit h

variable {es : List Element}

theorem closing_flatMap (h : ∀ e ∈ es, e.Legal) (rest : Text) :
    closing (es.flatMap text ++ '"' :: rest) = some (es.flatMap text, '"' :: rest) := by
  induction es with
  | nil => cases rest <;> rfl
  | cons e es ih =>
    obtain ⟨he, hes⟩ := List.forall_mem_cons.mp h
    rw [List.flatMap_cons, List.append_assoc, closing_text he, ih hes]
    rfl

theorem sum_bytes_le (h : ∀ e ∈ es, e.Legal) : (es.map bytes).sum ≤ payloadLen (es.flatMap text) := by
  induction es with
  | nil => exact Nat.le_refl _
  | cons e es ih =>
    obtain ⟨he, hes⟩ := List.forall_mem_cons.mp h
    have hle := payloadLen_text he (es.flatMap text)
    have hr := ih hes
    rw [List.map_cons, List.sum_cons, List.flatMap_cons]
    omega

end Element

def Agrees (seg : Seg) (r : Range) : Prop := Module.Counts seg r ∧ seg.mem = r.mem

namespace Segment

def after (s : Segment) (rest : Text) : Text :=
  s.index ++ ';' :: ')' :: ((s.place.map Place.text).getD [] ++
    ' ' :: '"' :: (s.payloadText ++ '"' :: ')' :: rest))

theorem text_append {s : Segment} (hn : s.name = none) (rest : Text) : s.text ++ rest = MARKER ++ s.after rest := by
  have hm : MARKER = "(data ".toList ++ ['(', ';'] := by decide
  unfold text after
  rw [hn, hm]
  simp only [List.append_assoc, List.cons_append, List.nil_append, Option.map_none, Option.getD_none]

def const (p : Place) (rest : Text) : Text :=
  "(i32.const ".toList ++ ((if p.negative then ['-'] else []) ++ (p.offset ++ ')' :: rest))

def seg (s : Segment) (p : Place) : Seg :=
  ⟨value s.index % U32, value (p.memory.getD []) % U32, value p.offset,
    value p.offset + payloadLen s.payloadText⟩

variable {s : Segment} (h : s.Legal)
include h

theorem segmentAt_passive (hp : s.place = none) (rest : Text) :
    segmentAt (s.after rest) = (.Passive, s.after rest) := by
  have hh : headerAt (s.after rest) = some (value s.index, 0, '"' :: (s.payloadText ++ '"' :: ')' :: rest)) := by
    simp only [headerAt, after, hp, numAfter_append (c := ';') h.1 rfl]
    rfl
  simp only [segmentAt, hh]
  rfl

variable {p : Place} (hp : s.place = some p)
include hp

theorem memoryAt_place (rest : Text) : memoryAt (trimStart (p.text ++ rest)) =
    some (value (p.memory.getD []), const p rest) := by
  cases hm : p.memory with
  | none =>
    simp only [Place.text, hm, List.append_assoc]
    rfl
  | some m =>
    have hn := (h.2.2 p hp).2 m hm
    have ht : trimStart (p.text ++ rest) = "(memory ".toList ++ (m ++ ')' :: ' ' :: const p rest) := by
      simp only [Place.text, hm, Option.map_some, Option.getD_some, List.append_assoc]
      rfl
    simp only [ht, memoryAt, expect_append, numAfter_append (c := ')') hn rfl]
    rfl

theorem segmentAt_place (rest : Text) : segmentAt (s.after rest) =
    if p.negative then (.Unknown, s.after rest) else (.Active (s.seg p), '"' :: ')' :: rest) := by
  have hi : headerAt (s.after rest) = some (value s.index, value (p.memory.getD []),
      const p (' ' :: '"' :: (s.payloadText ++ '"' :: ')' :: rest))) := by
    simp only [headerAt, after, hp, numAfter_append (c := ';') h.1 rfl]
    exact congrArg (Option.bind · fun m => some (value s.index, m)) (memoryAt_place h hp _)
  have he : expect "(i32.const ".toList (const p (' ' :: '"' :: (s.payloadText ++ '"' :: ')' :: rest))) =
      some _ := expect_append _ _
  simp only [segmentAt, hi, he]
  cases p.negative with
  | true => rfl
  | false =>
    have ha : activeAt (value s.index) (value (p.memory.getD []))
        (p.offset ++ ')' :: ' ' :: '"' :: (s.payloadText ++ '"' :: ')' :: rest)) =
        some (s.seg p, '"' :: ')' :: rest) := by
      simp only [activeAt, numAfter_append (c := ')') (h.2.2 p hp).1 rfl]
      exact congrArg (Option.bind · _) (Element.closing_flatMap h.2.1 _)
    simp only [Bool.false_eq_true, if_false, List.nil_append, ha]

theorem seg_agrees (hn : p.negative = false) : ∃ r, s.range? = some r ∧ Agrees (s.seg p) r := by
  have hm : value (p.memory.getD []) < U32 := by
    cases hm : p.memory with
    | none => decide
    | some m => exact ((h.2.2 p hp).2 m hm).2.2
  refine ⟨⟨value s.index, value (p.memory.getD []), value p.offset, (s.payload.map Element.bytes).sum⟩, ?_,
    ⟨Nat.mod_eq_of_lt h.1.2.2, rfl, ?_⟩, Nat.mod_eq_of_lt hm⟩
  · simp only [range?, hp, Option.map_some, hn, Bool.false_eq_true, if_false]
  · exact Nat.add_le_add_left (Element.sum_bytes_le h.2.1) (value p.offset)

end Segment

-- No occurrence of the marker starts in x if y follows it.
def Skips (x y : Text) : Prop := ∀ w z, x = w ++ z → z ≠ [] → ¬ MARKER <+: z ++ y

theorem parseFrom_skip (skip : Nat) (s : Text) : parseFrom skip s = parseSegments (s.drop skip) := by
  induction s generalizing skip with
  | nil => simp [parseSegments, parseFrom]
  | cons c s ih =>
    cases skip with
    | zero => rfl
    | succ skip => exact ih skip

theorem expect_eq_none {t s : Text} (h : ¬ t <+: s) : expect t s = none := by
  simp [expect, h]

theorem parse_marker {after left : Text} {parsed : Parsed} (hs : segmentAt after = (parsed, left))
    (h : left <:+ after) : parseSegments (MARKER ++ after) = parsed :: parseSegments left := by
  have he : expect MARKER ('(' :: (MARKER.tail ++ after)) = some after := expect_append MARKER after
  obtain ⟨before, rfl⟩ := h
  have hl : (MARKER.tail ++ (before ++ left)).length - left.length = (MARKER.tail ++ before).length := by
    simp only [List.length_append]
    omega
  rw [show MARKER ++ (before ++ left) = '(' :: (MARKER.tail ++ (before ++ left)) from rfl, parseSegments,
    parseFrom, he]
  simp only [hs]
  rw [parseFrom_skip, hl, ← List.append_assoc, List.drop_left]

theorem parse_skips {y : Text} (h : Skips x y) : parseSegments (x ++ y) = parseSegments y := by
  induction x with
  | nil => rfl
  | cons c x ih =>
    have he := expect_eq_none (h [] (c :: x) rfl (List.cons_ne_nil c x))
    simp only [List.cons_append, parseSegments, parseFrom] at he ⊢
    rw [he]
    exact ih fun w z hw hz => h (c :: w) z (congrArg (c :: ·) hw) hz

theorem skips_foreign (h : ¬ MARKER <:+: x) (hc : c ∉ MARKER) (y : Text) : Skips (x ++ [c]) y := by
  intro w z hw hz hp
  obtain ⟨z, d, rfl⟩ := (List.eq_nil_or_concat z).resolve_left hz
  rw [List.concat_eq_append, ← List.append_assoc] at hw
  obtain ⟨rfl, heq⟩ := List.append_inj' hw rfl
  cases heq
  rw [List.concat_eq_append] at hp
  have hm : c ∈ z ++ [c] := by simp
  rcases List.prefix_or_prefix_of_prefix hp (List.prefix_append _ _) with hz | hz
  · rcases List.prefix_concat_iff.mp hz with hz | hz
    · exact hc (hz ▸ hm)
    · exact h (hz.isInfix.trans (List.suffix_append w z).isInfix)
  · exact hc (hz.subset hm)

-- A proper end of the marker is not a beginning of it.
theorem skips_marker (h : ¬ MARKER <:+: x) (y : Text) : Skips x (MARKER ++ y) := by
  rintro w z rfl hz hp
  have hn : ¬ MARKER <+: z := fun hz => h (hz.isInfix.trans (List.suffix_append w z).isInfix)
  obtain ⟨u, hu⟩ := (List.prefix_or_prefix_of_prefix hp (List.prefix_append _ _)).resolve_left hn
  have hd : MARKER.drop z.length = u := by rw [← hu, List.drop_left]
  have hpre : u <+: MARKER := by
    obtain ⟨t, ht⟩ := hp
    rw [← hu, List.append_assoc, List.append_cancel_left_eq, hu] at ht
    refine List.prefix_of_prefix_length_le ⟨t, ht⟩ (List.prefix_append _ _) ?_
    rw [← hd, List.length_drop]
    omega
  have hlen : z.length < 8 := by
    by_contra hge
    have hnil : u = [] := by rw [← hd, List.drop_eq_nil_iff]; exact Nat.not_lt.mp hge
    exact hn ⟨[], by rw [← hu, hnil]; simp⟩
  have hb : ∀ k < 8, 0 < k → ¬ MARKER.drop k <+: MARKER := by decide
  exact hb z.length hlen (List.length_pos_iff.mpr hz) (hd ▸ hpre)

theorem marker_absent (h : '(' ∉ x) : ¬ MARKER <:+: x :=
  fun hx => h (hx.subset (by decide))

theorem parse_foreign (h : ¬ MARKER <:+: x) (hc : c ∉ MARKER) (y : Text) :
    parseSegments (x ++ c :: y) = parseSegments y := by
  rw [← List.singleton_append, ← List.append_assoc]
  exact parse_skips (skips_foreign h hc y)

theorem parse_cons (hc : c ∉ MARKER) (y : Text) : parseSegments (c :: y) = parseSegments y :=
  parse_foreign (x := []) (by decide) hc y

theorem parse_gap (h : ¬ MARKER <:+: x) : parseSegments x = [] := by
  have hs : Skips x [] := by
    rintro w z rfl _ hp
    rw [List.append_nil] at hp
    exact h (hp.isInfix.trans (List.suffix_append w z).isInfix)
  simpa [parseSegments, parseFrom] using parse_skips hs

namespace Segment

variable {s : Segment} (h : s.Legal)
include h

theorem parse_passive (hp : s.place = none) (hm : ¬ MARKER <:+: s.payloadText) (rest : Text) :
    parseSegments (s.after rest) = parseSegments rest := by
  have hi : '(' ∉ s.index ++ [';', ')', ' '] := by
    intro hm
    rcases List.mem_append.mp hm with hm | hm
    · exact absurd (h.1.2.1 _ hm) (by decide)
    · exact absurd hm (by decide)
  have hq : '"' ∉ MARKER := by decide
  have hx := parse_foreign (marker_absent hi) hq (s.payloadText ++ '"' :: ')' :: rest)
  rw [List.append_assoc] at hx
  simp only [after, hp]
  exact hx.trans ((parse_foreign hm hq _).trans (parse_cons (by decide) rest))

-- An unnamed segment is refused, or it is passive, or it is taken with its own place and size.
theorem parse_text (hn : s.name = none) (hm : s.place = none → ¬ MARKER <:+: s.payloadText)
    (rest : Text) : Parsed.Unknown ∈ parseSegments (s.text ++ rest) ∨
      s.range? = none ∧ parseSegments (s.text ++ rest) = .Passive :: parseSegments rest ∨
      ∃ seg r, s.range? = some r ∧ Agrees seg r ∧
        parseSegments (s.text ++ rest) = .Active seg :: parseSegments rest := by
  rw [text_append hn]
  cases hp : s.place with
  | none =>
    rw [parse_marker (segmentAt_passive h hp rest) (List.suffix_refl _), parse_passive h hp (hm hp)]
    exact .inr (.inl ⟨by rw [range?, hp]; rfl, rfl⟩)
  | some p =>
    have hs := segmentAt_place h hp rest
    cases hn : p.negative with
    | true =>
      rw [hn, if_pos rfl] at hs
      rw [parse_marker hs (List.suffix_refl _)]
      exact .inl List.mem_cons_self
    | false =>
      rw [hn, if_neg Bool.false_ne_true] at hs
      have hl : '"' :: ')' :: rest <:+ s.after rest :=
        ⟨s.index ++ ';' :: ')' :: ((s.place.map Place.text).getD [] ++ ' ' :: '"' :: s.payloadText), by simp [after]⟩
      obtain ⟨r, hr, ha⟩ := seg_agrees h hp hn
      rw [parse_marker hs hl, parse_cons (by decide), parse_cons (by decide)]
      exact .inr (.inr ⟨_, r, hr, ha, rfl⟩)

end Segment

namespace Module

theorem parse_bodyText {body : List (Segment × Text)} (h : ∀ s ∈ body, s.1.Legal) (hn : ∀ s ∈ body, s.1.name = none)
    (hm : ∀ s ∈ body, s.1.place = none → ¬ MARKER <:+: s.1.payloadText)
    (hg : ∀ s ∈ body, ¬ MARKER <:+: s.2) {x : Text} (hx : ¬ MARKER <:+: x) :
    Parsed.Unknown ∈ parseSegments (x ++ bodyText body) ∨
      List.Forall₂ Agrees ((parseSegments (x ++ bodyText body)).filterMap Parsed.seg?)
        (body.filterMap fun s => s.1.range?) := by
  induction body generalizing x with
  | nil =>
    rw [bodyText, List.flatMap_nil, List.append_nil, parse_gap hx]
    exact .inr .nil
  | cons sg body ih =>
    obtain ⟨s, g⟩ := sg
    rw [List.forall_mem_cons] at h hn hm hg
    have hs : parseSegments (x ++ bodyText ((s, g) :: body)) = parseSegments (s.text ++ (g ++ bodyText body)) := by
      rw [bodyText, List.flatMap_cons, ← bodyText, List.append_assoc, Segment.text_append hn.1]
      exact parse_skips (skips_marker hx _)
    rw [hs]
    have hr := ih h.2 hn.2 hm.2 hg.2 hg.1
    rcases Segment.parse_text h.1 hn.1 hm.1 (g ++ bodyText body) with hu | ⟨hp, heq⟩ | ⟨seg, r, hp, ha, heq⟩
    · exact .inl hu
    · simp only [heq, List.filterMap_cons, hp, Parsed.seg?]
      exact hr.imp (List.mem_cons_of_mem _) id
    · simp only [heq, List.filterMap_cons, hp, Parsed.seg?]
      exact hr.imp (List.mem_cons_of_mem _) (.cons ha)

variable {segs : List Seg}

theorem of_pass {wat : Text} {passive : Nat}
    (h : checkModule wat = .Pass segs passive) : Parsed.Unknown ∉ parseSegments wat ∧
      (parseSegments wat).filterMap Parsed.seg? = segs ∧ ∀ a ∈ segs, ∀ b ∈ segs, a.overlaps b = false := by
  simp only [checkModule] at h
  split_ifs at h with hu ho
  cases h
  refine ⟨fun hm => hu (List.countP_pos_iff.mpr ⟨_, hm, rfl⟩), rfl, ?_⟩
  simpa [overlaps] using ho

theorem exists_seg {ranges : List Range} (h : List.Forall₂ Agrees segs ranges) :
    ∀ r ∈ ranges, ∃ seg ∈ segs, Agrees seg r := by
  induction h with
  | nil => simp
  | cons ha _ ih =>
    refine List.forall_mem_cons.mpr ⟨⟨_, List.mem_cons_self, ha⟩, fun r hr => ?_⟩
    obtain ⟨seg, hs, ha⟩ := ih r hr
    exact ⟨seg, List.mem_cons_of_mem _ hs, ha⟩

theorem noFalsePass {m : Module} (h : m.Legal) (hf : m.Follows ⟨false, false, false⟩) : m.NoFalsePass := by
  intro segs passive hp
  obtain ⟨hu, rfl, ho⟩ := of_pass hp
  have hr := (parse_bodyText h.segments (hf.names rfl) (hf.passives rfl) (hf.others rfl).2
    (hf.others rfl).1).resolve_left hu
  refine ⟨hr.imp fun _ _ h => h.1, ?_⟩
  have hd : m.ranges.Pairwise fun a b => a.index ≠ b.index := by
    refine List.pairwise_filterMap.mpr ((List.pairwise_map.mp h.distinct).imp fun hne a ha b hb => ?_)
    obtain ⟨p, -, rfl⟩ := Option.map_eq_some_iff.mp ha
    obtain ⟨q, -, rfl⟩ := Option.map_eq_some_iff.mp hb
    exact hne
  refine hd.imp_of_mem fun {a b} ha hb hne hm => ?_
  obtain ⟨a', hma, ⟨hia, hla, hha⟩, hea⟩ := exists_seg hr a ha
  obtain ⟨b', hmb, ⟨hib, hlb, hhb⟩, heb⟩ := exists_seg hr b hb
  have hab := ho a' hma b' hmb
  have hba := ho b' hmb a' hma
  simp only [Seg.overlaps, Bool.and_eq_false_iff, decide_eq_false_iff_not] at hab hba
  omega

end Module

def active (name : Option (Text)) (index : Char) : Segment :=
  ⟨name, [index], some ⟨none, false, ['0']⟩, [.Plain 'x']⟩

-- Two segments on one address, which the search for the marker does not find.
def named : Module where
  first := "(module ".toList
  body := [(active (some ['a']) '0', [' ']), (active (some ['b']) '1', [')'])]

-- The start of a segment at the end of a string takes what follows up to the next quote.
def start : Text := "(data (;9;) (i32.const 0) ".toList

def passive : Module where
  first := "(module ".toList
  body := [(⟨none, ['0'], none, start.map .Plain⟩, [' ']), (active none '1', [')'])]

def exported : Module where
  first := "(module (export \"".toList ++ start ++ "\" (memory 0)) ".toList
  body := [(active none '1', [')'])]

theorem forall_pair {α : Type} {p : α → Prop} {a b : α} (ha : p a) (hb : p b) : ∀ x ∈ [a, b], p x :=
  List.forall_mem_cons.mpr ⟨ha, List.forall_mem_singleton.mpr hb⟩

instance (digits : Text) : Decidable (Numeral digits) :=
  letI := List.decidableBAll (fun c : Char => c.isDigit = true) digits
  inferInstanceAs (Decidable (_ ∧ _ ∧ _))

theorem active_legal {name : Option (Text)} {idx : Char} (h : Numeral [idx]) : (active name idx).Legal := by
  refine ⟨h, List.forall_mem_singleton.mpr ⟨by decide, by decide⟩, ?_⟩
  rintro _ ⟨⟩
  exact ⟨by decide, nofun⟩

theorem named_legal : named.Legal :=
  ⟨forall_pair (active_legal (by decide)) (active_legal (by decide)), by decide⟩

theorem start_plain : ∀ c ∈ start, c ≠ '"' ∧ c ≠ '\\' :=
  @of_decide_eq_true _ (List.decidableBAll _ _) rfl

theorem passive_legal : passive.Legal := by
  refine ⟨forall_pair ⟨by decide, List.forall_mem_map.mpr start_plain, nofun⟩ ?_, by decide⟩
  exact active_legal (by decide)

theorem exported_legal : exported.Legal :=
  ⟨List.forall_mem_singleton.mpr (active_legal (by decide)), by decide⟩

end Gale.DataOverlap
