import Mathlib.Data.List.DropRight
import Scry.Query.Postings

/-! # Label matchers on the live half of a query

Texts are lists of characters: the operators and quotes are ASCII, so cutting at bytes is the same.
-/

open Scry.Lib Scry.Block

namespace Scry.Query

open List

inductive MatchOp where
  | eq
  | ne
  | re
  | nre
  deriving DecidableEq

/-- A compiled regex is the predicate it decides. -/
structure Matcher where
  key : List Char
  op : MatchOp
  value : List Char
  re : Option (List Char → Bool)

def keyText (label : LabelPair) : List Char := (ofLex label).1.toList

def valueText (label : LabelPair) : List Char := (ofLex label).2.toList

/-- `char::is_whitespace` -/
def isWhitespace (c : Char) : Bool :=
  (0x09 ≤ c.toNat && c.toNat ≤ 0x0D) || (0x2000 ≤ c.toNat && c.toNat ≤ 0x200A) ||
    [0x20, 0x85, 0xA0, 0x1680, 0x2028, 0x2029, 0x202F, 0x205F, 0x3000].contains c.toNat

def trim (s : List Char) : List Char := (s.dropWhile isWhitespace).rdropWhile isWhitespace

def splitOp : List Char → Option (List Char × MatchOp × List Char)
  | [] => none
  | '=' :: '~' :: rest => some ([], .re, rest)
  | '=' :: rest => some ([], .eq, rest)
  | '!' :: '=' :: rest => some ([], .ne, rest)
  | '!' :: '~' :: rest => some ([], .nre, rest)
  | '!' :: _ => none
  | c :: rest => (splitOp rest).map fun (key, op, value) => (c :: key, op, value)

def stripQuotes (s : List Char) : List Char :=
  let s := trim s
  if 2 ≤ s.length ∧ s.head? = some '"' ∧ s.getLast? = some '"' then s.tail.dropLast else s

section Filter

-- `Regex::new`, of the anchored pattern
variable (regex : List Char → Option (List Char → Bool))

def Matcher.parse (spec : List Char) : Option Matcher := do
  let (key, op, rest) ← splitOp (trim spec)
  if key.isEmpty then none
  else
    let value := stripQuotes rest
    match op with
    | .re | .nre =>
      let re ← regex ("^(?:".toList ++ value ++ ")$".toList)
      some ⟨key, op, value, some re⟩
    | .eq | .ne => some ⟨key, op, value, none⟩

/-- The value of the first label with the key, empty when there is none. -/
def valueOf (labels : List LabelPair) (key : List Char) : List Char :=
  ((labels.find? fun l => keyText l = key).map fun l => valueText l).getD []

def Matcher.matches (m : Matcher) (labels : List LabelPair) : Bool :=
  let actual := valueOf labels m.key
  match m.op with
  | .eq => actual = m.value
  | .ne => actual ≠ m.value
  | .re => m.re.any fun re => re actual
  | .nre => m.re.any fun re => !re actual

/-- `LabelFilter::parse` -/
def parseFilter (specs : List (List Char)) : Option (List Matcher) := specs.mapM (Matcher.parse regex)

/-- `LabelFilter::keeps` -/
def keeps (filter : List Matcher) (labels : List LabelPair) : Bool := filter.all fun m => m.matches labels

/-- `format!("{k}=\"{v}\"")` -/
def render (pair : LabelPair) : List Char :=
  keyText pair ++ '=' :: '"' :: (valueText pair ++ ['"'])

variable (drain : List PostingsEntry → List PostingsEntry) (fingerprint : Nat)

/-- Without matchers the history half restricts nothing. -/
def historyKeeps
    (matchers : List LabelPair) (labels : List LabelPair) : Prop :=
  matchers = [] ∨
    fingerprint ∈ (intersectMatchers (buildPostings drain [⟨fingerprint, labels⟩]) matchers).getD []

/-- The live filter parses and keeps the stream exactly when the history half does. -/
def Agrees
    (matchers labels : List LabelPair) : Prop :=
  ∃ filter, parseFilter regex (matchers.map render) = some filter ∧
    (keeps filter labels = true ↔ historyKeeps drain fingerprint matchers labels)

end Filter

/-! ## What a rendered matcher is read back as -/

def readKey (key : List Char) : List Char :=
  (key.dropWhile isWhitespace).takeWhile fun c => c ≠ '=' ∧ c ≠ '!'

theorem trim_render (pair : LabelPair) :
    trim (render pair) =
      (keyText pair).dropWhile isWhitespace ++ '=' :: '"' :: (valueText pair ++ ['"']) := by
  have hfront : (render pair).dropWhile isWhitespace =
      (keyText pair).dropWhile isWhitespace ++ '=' :: '"' :: (valueText pair ++ ['"']) := by
    rw [render, dropWhile_append]
    split <;> rename_i h
    · rw [List.isEmpty_iff.mp h]
      rfl
    · rfl
  have hassoc (xs ys : List Char) : xs ++ '=' :: '"' :: (ys ++ ['"']) = (xs ++ '=' :: '"' :: ys) ++ ['"'] := by simp
  rw [trim, hfront, hassoc]
  exact rdropWhile_concat_neg _ _ _ (by decide)

theorem key_of_splitOp {s key rest : List Char} {op : MatchOp} (h : splitOp s = some (key, op, rest)) :
    key = s.takeWhile fun c => c ≠ '=' ∧ c ≠ '!' := by
  fun_induction splitOp s generalizing key with
  | case7 c s _ heq _ _ hne ih =>
    simp only [Option.map_eq_some_iff, Prod.mk.injEq, Prod.exists] at h
    obtain ⟨key, op, value, hrest, rfl, rfl, rfl⟩ := h
    have hc : c ≠ '=' ∧ c ≠ '!' := ⟨heq, hne⟩
    simp only [takeWhile_cons, hc, ne_eq, not_false_eq_true, and_self, decide_true, if_true, ← ih hrest]
  | _ => simp_all

theorem splitOp_append {key rest : List Char} (h : ∀ c ∈ key, c ≠ '=' ∧ c ≠ '!') :
    splitOp (key ++ '=' :: '"' :: rest) = some (key, .eq, '"' :: rest) := by
  induction key with
  | nil => rfl
  | cons c key ih =>
    obtain ⟨hc, hkey⟩ := forall_mem_cons.mp h
    simp [splitOp, ih hkey, hc]

theorem stripQuotes_quoted (value : List Char) : stripQuotes ('"' :: (value ++ ['"'])) = value := by
  have htrim : trim ('"' :: (value ++ ['"'])) = '"' :: (value ++ ['"']) := by
    rw [trim, dropWhile_cons_of_neg (by decide), ← cons_append]
    exact rdropWhile_concat_neg _ _ _ (by decide)
  have hlast : ('"' :: (value ++ ['"'])).getLast? = some '"' := by
    rw [← cons_append, getLast?_concat]
  simp [stripQuotes, htrim, hlast]

structure PlainKey (key : List Char) : Prop where
  nonempty : key ≠ []
  no_blank : key.dropWhile isWhitespace = key
  no_op : ∀ c ∈ key, c ≠ '=' ∧ c ≠ '!'

theorem readKey_eq_self {key : List Char} (hne : key ≠ []) : readKey key = key ↔ PlainKey key := by
  constructor
  · intro h
    have hblank : key.dropWhile isWhitespace = key := by
      refine (dropWhile_suffix _).eq_of_length_le ?_
      conv_lhs => rw [← h]
      exact (List.takeWhile_prefix _).length_le
    refine ⟨hne, hblank, ?_⟩
    rw [readKey, hblank] at h
    simpa using takeWhile_eq_self_iff.mp h
  · intro h
    rw [readKey, h.no_blank]
    exact takeWhile_eq_self_iff.mpr (by simpa using h.no_op)

variable {regex : List Char → Option (List Char → Bool)} {pair : LabelPair}

theorem key_of_parse {m : Matcher} (h : Matcher.parse regex (render pair) = some m) :
    m.key = readKey (keyText pair) ∧ m.key ≠ [] := by
  simp only [Matcher.parse, Option.bind_eq_bind, Option.bind_eq_some_iff, Prod.exists, Option.ite_none_left_eq_some] at h
  obtain ⟨key, op, rest, hsplit, hne, h⟩ := h
  have hkey : m.key = key := by
    cases op with
    | eq | ne =>
      cases h
      rfl
    | re | nre =>
      obtain ⟨re, -, h⟩ := Option.bind_eq_some_iff.mp h
      cases h
      rfl
  rw [hkey]
  refine ⟨?_, by simpa using hne⟩
  rw [key_of_splitOp hsplit, trim_render, takeWhile_append]
  split
  · rename_i h
    rw [readKey, (List.takeWhile_prefix _).eq_of_length h]
    simp
  · rfl

theorem parse_plain (h : PlainKey (keyText pair)) :
    Matcher.parse regex (render pair) = some ⟨keyText pair, .eq, valueText pair, none⟩ := by
  rw [Matcher.parse, trim_render, h.no_blank, splitOp_append h.no_op]
  simp only [Option.bind_eq_bind, Option.bind_some, List.isEmpty_iff, h.nonempty, if_false, stripQuotes_quoted]

/-! ## Where the two halves agree -/

theorem historyKeeps_iff {drain : List PostingsEntry → List PostingsEntry} (hdrain : ∀ l, (drain l).Perm l)
    {fingerprint : Nat} {matchers labels : List LabelPair} :
    historyKeeps drain fingerprint matchers labels ↔ ∀ pair ∈ matchers, pair ∈ labels := by
  rw [historyKeeps, mem_intersect_buildPostings hdrain]
  by_cases h : matchers = [] <;> simp [h]

theorem valueOf_eq_iff {labels : List LabelPair} (hkeys : (labels.map keyText).Nodup)
    (hne : valueText pair ≠ []) : valueOf labels (keyText pair) = valueText pair ↔ pair ∈ labels := by
  unfold valueOf
  constructor
  · intro h
    cases hfind : labels.find? fun l => keyText l = keyText pair with
    | none =>
      rw [hfind] at h
      exact absurd h.symm hne
    | some l =>
      rw [hfind] at h
      obtain ⟨hmem, hkey⟩ := (find?_key_iff hkeys).mp hfind
      exact (Prod.ext (String.toList_inj.mp hkey) (String.toList_inj.mp h) : _ = pair) ▸ hmem
  · intro hmem
    rw [(find?_key_iff hkeys).mpr ⟨hmem, rfl⟩]
    rfl

section Agreement

variable {drain : List PostingsEntry → List PostingsEntry} (hdrain : ∀ l, (drain l).Perm l) {fingerprint : Nat}
  {matchers labels : List LabelPair}
include hdrain

theorem agrees_of_plain (hplain : ∀ pair ∈ matchers, PlainKey (keyText pair)) :
    Agrees regex drain fingerprint matchers labels ↔
      ((∀ pair ∈ matchers, valueOf labels (keyText pair) = valueText pair) ↔ ∀ pair ∈ matchers, pair ∈ labels) := by
  have hparse : parseFilter regex (matchers.map render) =
      some (matchers.map fun pair => ⟨keyText pair, .eq, valueText pair, none⟩) :=
    mapM_map_of_forall fun pair hpair => parse_plain (hplain pair hpair)
  have hkeeps : keeps (matchers.map fun pair => ⟨keyText pair, .eq, valueText pair, none⟩) labels = true ↔
      ∀ pair ∈ matchers, valueOf labels (keyText pair) = valueText pair := by
    simp only [keeps, Matcher.matches, all_map, all_eq_true, Function.comp_apply, decide_eq_true_eq]
  simp only [Agrees, hparse, Option.some.injEq, exists_eq_left', hkeeps, historyKeeps_iff hdrain]

variable {pair : LabelPair}

theorem agrees_singleton : Agrees regex drain fingerprint [pair] labels ↔ ∃ m, Matcher.parse regex
    (render pair) = some m ∧ (m.matches labels = true ↔ pair ∈ labels) := by
  have hparse : parseFilter regex ([pair].map render) = (Matcher.parse regex (render pair)).map ([·]) := by
    cases h : Matcher.parse regex (render pair) <;> simp [parseFilter, h]
  rw [Agrees, hparse]
  simp [historyKeeps_iff hdrain, keeps]

theorem plain_of_agrees (hnone : Agrees regex drain fingerprint [pair] [])
    (hone : Agrees regex drain fingerprint [pair] [pair]) : PlainKey (keyText pair) ∧ valueText pair ≠ [] := by
  obtain ⟨m, hm, hnone⟩ := (agrees_singleton hdrain).mp hnone
  obtain ⟨m', hm', hone⟩ := (agrees_singleton hdrain).mp hone
  cases hm.symm.trans hm'
  obtain ⟨hkey, hne⟩ := key_of_parse hm
  have hread : readKey (keyText pair) = keyText pair := by
    by_contra hother
    -- Neither stream has the key that was read, so the matcher cannot tell them apart.
    have hsame : valueOf [pair] m.key = valueOf [] m.key := by
      rw [hkey]
      simp [valueOf, Ne.symm hother]
    have : m.matches [pair] = m.matches [] := by simp only [Matcher.matches, hsame]
    rw [this] at hone
    exact not_mem_nil (hnone.mp (hone.mpr (mem_singleton.mpr rfl)))
  have hplain := (readKey_eq_self (hread ▸ hkey ▸ hne)).mp hread
  cases (parse_plain hplain).symm.trans hm
  exact ⟨hplain, by simpa [Matcher.matches, valueOf] using hnone⟩

end Agreement

end Scry.Query
