import KistCollector.Lib.Text
import Mathlib.Data.List.DropRight
import Mathlib.Data.List.Nodup

/-!
# Block-style YAML

A reader of YAML 1.2 documents made of block mappings and block sequences, plain scalars, which may go on
over several lines, and double-quoted scalars on one line. It goes line by line: `step` turns a line into the
entries it begins, with a plain scalar that may go on left pending, and `block` groups the entries by their
indentation. YAML reads what it accepts in the same way, but for keys of more than 1024 characters and
control characters in comments, which it lets pass. It rejects, where YAML may read something, flow
collections, single quotes, block scalars, anchors, tags, quoted scalars over several lines, `\x`, `\u`
and `\U`.
-/

namespace BlockYaml

open Text

/-! ## Scalars -/

def isWhite (c : Char) : Bool := c = ' ' || c = '\t'

/-- What may stand in a line at all: no control character but the tab. -/
def isJson (c : Char) : Bool := c = '\t' || 0x20 ≤ c.toNat

/-- A character of a plain scalar, which is printable and neither white nor a byte order mark. -/
def isNs (c : Char) : Bool :=
  (0x21 ≤ c.toNat && c.toNat ≤ 0x7e || c.toNat = 0x85 || 0xa0 ≤ c.toNat && c.toNat ≤ 0xfffd ||
    0x10000 ≤ c.toNat) && c.toNat ≠ 0xfeff

/-- The indicators, with which a plain scalar does not begin. -/
def indicators : List Char :=
  ['-', '?', ':', ',', '[', ']', '\x7b', '\x7d', '#', '&', '*', '!', '|', '>', '\x27', '"', '%', '@',
    '\x60']

/-- What follows the beginning of a plain scalar on its line: after a colon comes a character that is not
white, before a `#` one, and there is one at the end. -/
def plainRest : Bool → List Char → Bool
  | white, [] => !white
  | white, c :: cs =>
    if isWhite c then plainRest true cs
    else isNs c && (c ≠ ':' || cs.head?.any isNs) && (c ≠ '#' || !white) && plainRest false cs

/-- A plain scalar on one line. Of the indicators only `-`, `?` and `:` may begin it, before a character
that is not white. -/
def plainSafe : List Char → Bool
  | [] => false
  | c :: cs =>
    (if c ∈ indicators then c ∈ ['-', '?', ':'] && cs.head?.any isNs else isNs c) && plainRest false cs

inductive Scalar where
  | plain (content : List Char)
  | quoted (content : List Char)
  deriving DecidableEq

def Scalar.content : Scalar → List Char
  | .plain content | .quoted content => content

/-- The character of an escape `\c`. -/
def escaped : Char → Option Char
  | '0' => some '\x00'
  | 'a' => some '\x07'
  | 'b' => some '\x08'
  | 't' | '\t' => some '\t'
  | 'n' => some '\n'
  | 'v' => some '\x0b'
  | 'f' => some '\x0c'
  | 'r' => some '\r'
  | 'e' => some '\x1b'
  | ' ' => some ' '
  | '"' => some '"'
  | '/' => some '/'
  | '\\' => some '\\'
  | 'N' => some '\u0085'
  | '_' => some '\u00a0'
  | 'L' => some '\u2028'
  | 'P' => some '\u2029'
  | _ => none

/-- The content of a double-quoted scalar after its first quote, and what follows the last one. -/
def unquote : List Char → Option (List Char × List Char)
  | [] => none
  | '"' :: cs => some ([], cs)
  | '\\' :: c :: cs => do
    let d ← escaped c
    let (content, rest) ← unquote cs
    pure (d :: content, rest)
  | ['\\'] => none
  | c :: cs => do
    let (content, rest) ← unquote cs
    pure (c :: content, rest)

/-- A line without its comment: a `#` at its beginning, where `white` says that it stands after a white
character, or after one begins a comment. -/
def uncomment : Bool → List Char → List Char
  | _, [] => []
  | white, c :: cs => if c = '#' && white then [] else c :: uncomment (isWhite c) cs

/-- What stands on a line after the indicator that announces a value: nothing, a scalar that is complete, or
a plain one that may go on. -/
inductive Inline where
  | empty
  | closed (s : Scalar)
  | opened (content : List Char)
  deriving DecidableEq

def readInline (cs : List Char) : Option Inline :=
  let cs := cs.dropWhile isWhite
  if cs.head? = some '"' then
    (unquote cs.tail).bind fun (content, rest) =>
      if (uncomment false rest).all isWhite then some (.closed (.quoted content)) else none
  else
    let content := (uncomment true cs).rdropWhile isWhite
    if content = [] then some .empty
    else if !plainSafe content then none
    else if uncomment true cs = cs then some (.opened content)
    else some (.closed (.plain content))

/-! ## Lines -/

/-- An entry of a mapping, or an item of a sequence where there is no key, with the column at which it
begins. The value is missing where it is not a scalar. -/
structure Entry where
  col : Nat
  key : Option (List Char)
  value : Option Scalar
  deriving DecidableEq

/-- An entry whose plain scalar may go on, with the empty lines since. -/
structure Pending where
  col : Nat
  key : Option (List Char)
  content : List Char
  blanks : Nat := 0
  deriving DecidableEq

def Pending.entry (p : Pending) : Entry := ⟨p.col, p.key, some (.plain p.content)⟩

/-- The entries that are complete, and the one that is not. -/
abbrev Scanned := List Entry × Option Pending

def inlineEntry (col : Nat) (key : Option (List Char)) (cs : List Char) : Option Scanned :=
  (readInline cs).map fun
    | .empty => ([⟨col, key, none⟩], none)
    | .closed s => ([⟨col, key, some s⟩], none)
    | .opened content => ([], some { col := col, key := key, content := content })

/-- A key and what follows its colon. -/
def splitKey : List Char → Option (List Char × List Char)
  | [] => none
  | c :: cs =>
    if c = ':' && cs.head?.all isWhite then some ([], cs)
    else (splitKey cs).map fun (key, rest) => (c :: key, rest)

def keyEntry (col : Nat) (cs : List Char) : Option Scanned :=
  (splitKey cs).bind fun (key, rest) =>
    if plainSafe key then inlineEntry col (some key) rest else none

/-- What follows a dash: a scalar, or a mapping whose first entry stands on the line of the dash. -/
def itemEntry (col : Nat) (cs : List Char) : Option Scanned :=
  let item := cs.dropWhile (· = ' ')
  if item.head? = some '"' || (splitKey item).isNone then inlineEntry col none item
  else (keyEntry (col + 1 + (cs.length - item.length)) item).map fun (es, p) => (⟨col, none, none⟩ :: es, p)

def newEntry (col : Nat) (cs : List Char) : Option Scanned :=
  if cs.head? = some '-' && cs.tail.head?.all (· = ' ') then itemEntry col cs.tail else keyEntry col cs

/-- A plain scalar goes on. A line break is folded into a space, or, with empty lines after it, into one
line break for each of these. -/
def Pending.next (p : Pending) (cs : List Char) : Option Scanned :=
  let text := uncomment true cs
  let content := text.rdropWhile isWhite
  if plainRest false content then
    let fold := if p.blanks = 0 then [' '] else List.replicate p.blanks '\n'
    let p := { p with content := p.content ++ fold ++ content, blanks := 0 }
    if text = cs then some ([], some p) else some ([p.entry], none)
  else none

/-- The column at which the text of a line begins. -/
def indent (line : List Char) : Nat := (line.takeWhile (· = ' ')).length

/-- One line, after an entry that may be pending. -/
def step (o : Option Pending) (line : List Char) : Option Scanned :=
  let cs := line.dropWhile isWhite
  if !line.all isJson then none
  else if cs = [] then some ([], o.map fun p => { p with blanks := p.blanks + 1 })
  else if cs.head? = some '#' then some ((o.map Pending.entry).toList, none)
  else match o with
    | none => newEntry (indent line) (line.dropWhile (· = ' '))
    | some p =>
      if p.col < indent line then p.next cs
      else (newEntry (indent line) (line.dropWhile (· = ' '))).map fun (es, q) => (p.entry :: es, q)

def steps : Option Pending → List (List Char) → Option Scanned
  | o, [] => some ([], o)
  | o, line :: lines => do
    let (es, o) ← step o line
    let (es', o) ← steps o lines
    pure (es ++ es', o)

/-- The entries of some lines. -/
def scan (o : Option Pending) (lines : List (List Char)) : Option (List Entry) :=
  (steps o lines).map fun (es, o) => es ++ (o.map Pending.entry).toList

/-! ## Blocks -/

/-- The entries at column `c`, each with the deeper ones that follow it, and the deeper ones before the
first. -/
def groups (c : Nat) : List Entry → Option (List Entry × List (Entry × List Entry))
  | [] => some ([], [])
  | e :: es => do
    let (kids, gs) ← groups c es
    if e.col = c then pure ([], (e, kids) :: gs)
    else if c < e.col then pure (e :: kids, gs)
    else none

inductive Node where
  | null
  | scalar (s : Scalar)
  | seq (items : List Node)
  | map (entries : List (List Char × Node))

/-- A sequence where no entry has a key, and a mapping where all have, each a different one. -/
def collect (ns : List (Option (List Char) × Node)) : Option Node :=
  if ns.all fun n => n.1.isNone then some (.seq (ns.map Prod.snd))
  else (ns.mapM fun (n : Option (List Char) × Node) => n.1.map fun key => (key, n.2)).bind fun entries =>
    if (entries.map Prod.fst).Nodup then some (.map entries) else none

/-- The node of an entry, whose deeper ones make up a block. -/
def entryNode (block : List Entry → Option Node) (g : Entry × List Entry) :
    Option (Option (List Char) × Node) :=
  match g.1.value, g.2 with
  | some s, [] => some (g.1.key, .scalar s)
  | some _, _ :: _ => none
  | none, kids => (block kids).map fun n => (g.1.key, n)

def block : Nat → List Entry → Option Node
  | _, [] => some .null
  | 0, _ :: _ => none
  | depth + 1, e :: es => do
    let (kids, gs) ← groups e.col (e :: es)
    if kids = [] then (gs.mapM (entryNode (block depth))).bind collect else none

/-- The document of a text. -/
def read (text : List Char) : Option Node :=
  (scan none (text.splitOn '\n')).bind fun es => block es.length es

/-! ## Looking up -/

def Node.get (n : Node) (key : List Char) : Option Node :=
  match n with
  | .map entries => entries.lookup key
  | _ => none

/-- The string of a scalar. `isString` is the schema of the reader: the plain scalars that are not nulls,
booleans or numbers. -/
def Node.string? (isString : List Char → Bool) : Node → Option (List Char)
  | .scalar (.quoted content) => some content
  | .scalar (.plain content) => if isString content then some content else none
  | _ => none

/-- The strings of a sequence; a null has none. -/
def Node.strings? (isString : List Char → Bool) : Node → Option (List (List Char))
  | .null => some []
  | .seq items => items.mapM (string? isString)
  | _ => none

/-- The content of a scalar, whatever the schema. -/
def Node.content? : Node → Option (List Char)
  | .scalar s => some s.content
  | _ => none

/-- The integer that a plain scalar spells. -/
def Node.int? : Node → Option Int
  | .scalar (.plain content) => integer? content
  | _ => none

/-- The natural number that a plain scalar spells. -/
def Node.nat? : Node → Option Nat
  | .scalar (.plain content) => number? content
  | _ => none

/-- What `f` makes of each node of a sequence; a null has none. -/
def Node.items? {α : Type} (f : Node → Option α) : Node → Option (List α)
  | .null => some []
  | .seq items => items.mapM f
  | _ => none

/-! ## Safe scalars -/

theorem not_white_of_isNs (h : isNs c = true) : isWhite c = false := by
  cases hw : isWhite c with
  | false => rfl
  | true =>
    simp only [isWhite, Bool.or_eq_true, decide_eq_true_eq] at hw
    rcases hw with rfl | rfl <;> exact absurd h (by decide)

theorem uncomment_of_plainRest (h : plainRest white cs = true) : uncomment white cs = cs := by
  induction cs generalizing white with
  | nil => rfl
  | cons c cs ih =>
    unfold plainRest at h
    unfold uncomment
    split at h
    · rename_i hw
      have hc : ¬ (c = '#' && white) = true := by
        rintro hc
        obtain ⟨rfl, -⟩ : c = '#' ∧ white = true := by simpa using hc
        exact absurd hw (by decide)
      rw [if_neg hc, hw, ih h]
    · rename_i hw
      simp only [Bool.and_eq_true, Bool.or_eq_true, decide_eq_true_eq, Bool.not_eq_true'] at h
      have hc : ¬ (c = '#' && white) = true := by
        simp only [Bool.and_eq_true, decide_eq_true_eq, not_and]
        intro hc hwhite
        rcases h.1.2 with hne | hfalse
        · exact hne hc
        · rw [hwhite] at hfalse
          cases hfalse
      rw [if_neg hc, eq_false_of_ne_true hw, ih h.2]

theorem getLast_of_plainRest (h : plainRest white cs = true) (hne : cs ≠ []) :
    isWhite (cs.getLast hne) = false := by
  induction cs generalizing white with
  | nil => exact absurd rfl hne
  | cons c cs ih =>
    unfold plainRest at h
    cases cs with
    | nil =>
      split at h
      · cases h
      · rename_i hw
        simpa using hw
    | cons d cs =>
      rw [List.getLast_cons (List.cons_ne_nil d cs)]
      split at h
      · exact ih h _
      · exact ih (Bool.and_eq_true_iff.mp h).2 _

theorem plainSafe_cons (h : plainSafe (c :: cs) = true) :
    (c ∈ ['-', '?', ':'] ∨ c ∉ indicators ∧ isNs c = true) ∧ plainRest false cs = true := by
  obtain ⟨hc, hrest⟩ := Bool.and_eq_true_iff.mp h
  refine ⟨?_, hrest⟩
  split at hc
  · exact .inl (by simpa using (Bool.and_eq_true_iff.mp hc).1)
  · rename_i hmem
    exact .inr ⟨hmem, hc⟩

/-- A safe scalar begins with a character that is not white, no quote and no `#`. -/
theorem head_of_plainSafe (h : plainSafe (c :: cs) = true) :
    isWhite c = false ∧ c ≠ '"' ∧ c ≠ '#' := by
  rcases (plainSafe_cons h).1 with hc | ⟨hmem, hns⟩
  · simp only [List.mem_cons, List.not_mem_nil, or_false] at hc
    rcases hc with rfl | rfl | rfl <;> simp [isWhite]
  · refine ⟨not_white_of_isNs hns, ?_, ?_⟩
    · rintro rfl
      exact hmem (by decide)
    · rintro rfl
      exact hmem (by decide)

theorem uncomment_of_plainSafe (h : plainSafe cs = true) : uncomment true cs = cs := by
  cases cs with
  | nil => rfl
  | cons c cs =>
    obtain ⟨hwhite, -, hhash⟩ := head_of_plainSafe h
    rw [uncomment, if_neg (by simp [hhash]), hwhite, uncomment_of_plainRest (plainSafe_cons h).2]

theorem rdropWhile_of_plainSafe (h : plainSafe cs = true) : cs.rdropWhile isWhite = cs := by
  refine List.rdropWhile_eq_self_iff.mpr fun hne => ?_
  cases cs with
  | nil => exact absurd rfl hne
  | cons c cs =>
    rw [Bool.not_eq_true]
    cases cs with
    | nil => exact (head_of_plainSafe h).1
    | cons d cs =>
      rw [List.getLast_cons (List.cons_ne_nil d cs)]
      exact getLast_of_plainRest (plainSafe_cons h).2 _

theorem dropWhile_of_plainSafe {ws : List Char} (hws : ws.all isWhite = true)
    (h : plainSafe cs = true) : (ws ++ cs).dropWhile isWhite = cs := by
  rw [List.dropWhile_append_of_pos (by simpa using hws)]
  cases cs with
  | nil => rfl
  | cons c cs => exact List.dropWhile_cons_of_neg (by simp [(head_of_plainSafe h).1])

/-- A safe scalar is read as it is. -/
theorem readInline_of_plainSafe {ws : List Char} (hws : ws.all isWhite = true)
    (h : plainSafe cs = true) : readInline (ws ++ cs) = some (.opened cs) := by
  have hhead : cs.head? ≠ some '"' := by
    cases cs with
    | nil => simp
    | cons c cs => simpa using (head_of_plainSafe h).2.1
  have hne : cs ≠ [] := by
    rintro rfl
    cases h
  simp only [readInline, dropWhile_of_plainSafe hws h, if_neg hhead, uncomment_of_plainSafe h,
    rdropWhile_of_plainSafe h, if_neg hne, h]
  simp

/-- What may stand between double quotes and means itself. -/
def quotedSafe (cs : List Char) : Bool := cs.all fun c => isJson c && c ≠ '"' && c ≠ '\\'

theorem unquote_of_quotedSafe (h : quotedSafe cs = true) (rest : List Char) :
    unquote (cs ++ '"' :: rest) = some (cs, rest) := by
  induction cs with
  | nil => rfl
  | cons c cs ih =>
    obtain ⟨hc, hcs⟩ := Bool.and_eq_true_iff.mp h
    simp only [Bool.and_eq_true, decide_eq_true_eq, ne_eq] at hc
    rw [List.cons_append, unquote, ih hcs]
    · rfl
    · exact hc.1.2
    · intro d ds heq
      exact absurd heq hc.2
    · intro heq
      exact absurd heq hc.2

theorem readInline_of_quotedSafe {ws : List Char} (hws : ws.all isWhite = true)
    (h : quotedSafe cs = true) :
    readInline (ws ++ '"' :: cs ++ ['"']) = some (.closed (.quoted cs)) := by
  have hdrop : (ws ++ '"' :: cs ++ ['"']).dropWhile isWhite = '"' :: (cs ++ ['"']) := by
    rw [List.append_assoc, List.dropWhile_append_of_pos (by simpa using hws)]
    exact List.dropWhile_cons_of_neg (by decide)
  simp only [readInline, hdrop, List.head?_cons, if_true, List.tail_cons, unquote_of_quotedSafe h,
    Option.bind_some]
  rfl

/-! ## Lines with safe scalars -/

theorem splitKey_append {key rest : List Char} (hkey : ':' ∉ key)
    (hrest : rest.head?.all isWhite = true) : splitKey (key ++ ':' :: rest) = some (key, rest) := by
  induction key with
  | nil => simp [splitKey, hrest]
  | cons c key ih =>
    rw [List.mem_cons, not_or] at hkey
    obtain ⟨hc, hkey⟩ := hkey
    rw [List.cons_append, splitKey, if_neg (by simp [Ne.symm hc]), ih hkey]
    rfl

/-- A plain key as the writer of a block mapping puts it. -/
structure KeySafe (key : List Char) : Prop where
  safe : plainSafe key = true
  colon : ':' ∉ key
  dash : key.head? ≠ some '-'

instance (key : List Char) : Decidable (KeySafe key) :=
  decidable_of_iff (plainSafe key = true ∧ ':' ∉ key ∧ key.head? ≠ some '-')
    ⟨fun h => ⟨h.1, h.2.1, h.2.2⟩, fun h => ⟨h.safe, h.colon, h.dash⟩⟩

theorem keyEntry_append (hkey : KeySafe key) (hrest : rest.head?.all isWhite = true) :
    keyEntry col (key ++ ':' :: rest) = inlineEntry col (some key) rest := by
  simp [keyEntry, splitKey_append hkey.colon hrest, hkey.safe]

theorem newEntry_key (hkey : KeySafe key) (hrest : rest.head?.all isWhite = true) :
    newEntry col (key ++ ':' :: rest) = inlineEntry col (some key) rest := by
  have hdash : (key ++ ':' :: rest).head? ≠ some '-' := by
    cases key with
    | nil => simp
    | cons c key => simpa using hkey.dash
  rw [newEntry, if_neg (fun h => hdash (by simpa using (Bool.and_eq_true_iff.mp h).1)),
    keyEntry_append hkey hrest]

theorem dropSpaces_text (hwhite : isWhite c = false) :
    (List.replicate n ' ' ++ c :: ds).dropWhile (· = ' ') = c :: ds := by
  have hc : c ≠ ' ' := by
    rintro rfl
    exact absurd hwhite (by decide)
  rw [List.dropWhile_append_of_pos (by simp), List.dropWhile_cons_of_neg (by simp [hc])]

theorem dropWhite_text (hwhite : isWhite c = false) :
    (List.replicate n ' ' ++ c :: ds).dropWhile isWhite = c :: ds := by
  have hspace : ∀ d ∈ List.replicate n ' ', isWhite d = true := by
    intro d hd
    rw [List.eq_of_mem_replicate hd]
    rfl
  rw [List.dropWhile_append_of_pos hspace, List.dropWhile_cons_of_neg (by simp [hwhite])]

theorem indent_text (hwhite : isWhite c = false) :
    indent (List.replicate n ' ' ++ c :: ds) = n := by
  have hc : c ≠ ' ' := by
    rintro rfl
    exact absurd hwhite (by decide)
  rw [indent, List.takeWhile_append_of_pos (by simp), List.takeWhile_cons_of_neg (by simp [hc])]
  simp

theorem json_text (n : Nat) (cs : List Char) :
    (List.replicate n ' ' ++ cs).all isJson = cs.all isJson := by
  have hspaces : (List.replicate n ' ').all isJson = true := by simp [isJson]
  rw [List.all_append, hspaces, Bool.true_and]

/-- A line whose text is at column `n`, where nothing is pending. -/
theorem step_none_text (hwhite : isWhite c = false) (hhash : c ≠ '#') :
    step none (List.replicate n ' ' ++ c :: ds) =
      if (c :: ds).all isJson then newEntry n (c :: ds) else none := by
  simp only [step, json_text, dropSpaces_text hwhite, dropWhite_text hwhite, indent_text hwhite,
    List.cons_ne_nil, if_false, List.head?_cons, Option.some.injEq, if_neg hhash]
  cases (c :: ds).all isJson <;> rfl

/-- A line that begins an entry at column `n` or before it. -/
def Closing (n : Nat) (line : List Char) : Prop :=
  ∃ m c ds, m ≤ n ∧ isWhite c = false ∧ c ≠ '#' ∧ line = List.replicate m ' ' ++ c :: ds

theorem Closing.mono (h : Closing n line) (hn : n ≤ n') : Closing n' line := by
  obtain ⟨m, c, ds, hm, hwhite, hhash, hline⟩ := h
  exact ⟨m, c, ds, hm.trans hn, hwhite, hhash, hline⟩

/-- Such a line ends what is pending from that column on. -/
theorem step_closing (h : Closing n line) (ho : ∀ p ∈ o, n ≤ p.col) :
    step o line = (step none line).map fun (es, q) => ((o.map Pending.entry).toList ++ es, q) := by
  cases o with
  | none => simp
  | some p =>
    obtain ⟨m, c, ds, hm, hwhite, hhash, rfl⟩ := h
    have hcol : ¬ p.col < m := Nat.not_lt.mpr (hm.trans (ho p rfl))
    rw [step_none_text hwhite hhash]
    simp only [step, json_text, dropSpaces_text hwhite, dropWhite_text hwhite, indent_text hwhite,
      List.cons_ne_nil, if_false, List.head?_cons, Option.some.injEq, if_neg hhash, if_neg hcol]
    cases (c :: ds).all isJson <;> rfl

/-- `lines`, after what is pending from column `a` on, read as `es`, and what they leave pending is from
column `b` on. -/
def Scans (a : Nat) (lines : List (List Char)) (es : List Entry) (b : Nat) : Prop :=
  ∀ o : Option Pending, (∀ p ∈ o, a ≤ p.col) → ∃ es' o', steps o lines = some (es', o') ∧
    es' ++ (o'.map Pending.entry).toList = (o.map Pending.entry).toList ++ es ∧ ∀ p ∈ o', b ≤ p.col

theorem steps_append : steps o (ls ++ ms) = (steps o ls).bind fun (es, o') =>
    (steps o' ms).map fun (es', o'') => (es ++ es', o'') := by
  induction ls generalizing o with
  | nil =>
    cases h : steps o ms <;> simp [steps, h]
  | cons l ls ih =>
    simp only [List.cons_append, steps, ih, Option.bind_eq_bind]
    cases step o l with
    | none => rfl
    | some p =>
      obtain ⟨es, o₁⟩ := p
      simp only [Option.bind_some]
      cases steps o₁ ls with
      | none => rfl
      | some p =>
        obtain ⟨es', o₂⟩ := p
        simp only [Option.bind_some]
        cases hms : steps o₂ ms <;> simp [hms]

theorem Scans.nil : Scans a [] [] a := fun o ho => ⟨[], o, rfl, by simp, ho⟩

theorem Scans.weaken (h : Scans a ls es b) (hb : b' ≤ b) : Scans a ls es b' := by
  intro o ho
  obtain ⟨es', o', hsteps, heq, ho'⟩ := h o ho
  exact ⟨es', o', hsteps, heq, fun p hp => hb.trans (ho' p hp)⟩

theorem Scans.append (h : Scans a ls es b) (h' : Scans b' ms es' c) (hb : b' ≤ b) :
    Scans a (ls ++ ms) (es ++ es') c := by
  intro o ho
  obtain ⟨es₁, o₁, hsteps, heq, ho₁⟩ := h o ho
  obtain ⟨es₂, o₂, hsteps', heq', ho₂⟩ := h' o₁ fun p hp => hb.trans (ho₁ p hp)
  refine ⟨es₁ ++ es₂, o₂, by simp [steps_append, hsteps, hsteps'], ?_, ho₂⟩
  rw [List.append_assoc, heq', ← List.append_assoc, heq, List.append_assoc]

theorem Scans.cons (h : Scans a [l] es b) (h' : Scans b' ms es' c) (hb : b' ≤ b) :
    Scans a (l :: ms) (es ++ es') c := h.append h' hb

/-- A line with what its new entry leaves behind. -/
theorem Scans.of_newEntry {cs : List Char} (hjson : cs.all isJson = true)
    (hwhite : isWhite c = false) (hhash : c ≠ '#') (h : cs = c :: ds)
    (hnew : newEntry n cs = some (es, q)) (hq : ∀ p ∈ q, b ≤ p.col) :
    Scans n [List.replicate n ' ' ++ cs] (es ++ (q.map Pending.entry).toList) b := by
  intro o ho
  subst h
  have hclosing : Closing n (List.replicate n ' ' ++ c :: ds) :=
    ⟨n, c, ds, Nat.le_refl n, hwhite, hhash, rfl⟩
  refine ⟨(o.map Pending.entry).toList ++ es, q, ?_, by simp, hq⟩
  simp [steps, step_closing hclosing ho, step_none_text hwhite hhash, hjson, hnew]

theorem isJson_of_isNs (h : isNs c = true) : isJson c = true := by
  simp only [isNs, Bool.and_eq_true, Bool.or_eq_true, decide_eq_true_eq] at h
  simp only [isJson, Bool.or_eq_true, decide_eq_true_eq]
  omega

theorem isJson_of_isWhite (h : isWhite c = true) : isJson c = true := by
  simp only [isWhite, Bool.or_eq_true, decide_eq_true_eq] at h
  rcases h with rfl | rfl <;> rfl

theorem json_of_plainRest (h : plainRest white cs = true) : cs.all isJson = true := by
  induction cs generalizing white with
  | nil => rfl
  | cons c cs ih =>
    unfold plainRest at h
    rw [List.all_cons, Bool.and_eq_true]
    split at h
    · rename_i hw
      exact ⟨isJson_of_isWhite hw, ih h⟩
    · simp only [Bool.and_eq_true] at h
      exact ⟨isJson_of_isNs h.1.1.1, ih h.2⟩

theorem json_of_plainSafe (h : plainSafe cs = true) : cs.all isJson = true := by
  cases cs with
  | nil => rfl
  | cons c cs =>
    obtain ⟨hc, hrest⟩ := plainSafe_cons h
    rw [List.all_cons, json_of_plainRest hrest, Bool.and_true]
    rcases hc with hc | ⟨-, hc⟩
    · simp only [List.mem_cons, List.not_mem_nil, or_false] at hc
      rcases hc with rfl | rfl | rfl <;> rfl
    · exact isJson_of_isNs hc

/-- In a safe scalar no colon ends a key. -/
theorem splitKey_of_plainRest (h : plainRest white cs = true) : splitKey cs = none := by
  induction cs generalizing white with
  | nil => rfl
  | cons c cs ih =>
    unfold plainRest at h
    rw [splitKey]
    split at h
    · rename_i hw
      have hc : c ≠ ':' := by
        rintro rfl
        exact absurd hw (by decide)
      rw [if_neg (by simp [hc]), ih h]
      rfl
    · simp only [Bool.and_eq_true, Bool.or_eq_true, decide_eq_true_eq] at h
      have hc : ¬ (c = ':' && cs.head?.all isWhite) = true := by
        simp only [Bool.and_eq_true, decide_eq_true_eq, not_and]
        intro hc
        have hnext := h.1.1.2.resolve_left (not_not.mpr hc)
        cases cs with
        | nil => simp at hnext
        | cons d cs =>
          have hd : isNs d = true := by simpa using hnext
          simp [not_white_of_isNs hd]
      rw [if_neg hc, ih h.2]
      rfl

theorem splitKey_of_plainSafe (h : plainSafe cs = true) : splitKey cs = none := by
  cases cs with
  | nil => rfl
  | cons c cs =>
    obtain ⟨hc, hrest⟩ := Bool.and_eq_true_iff.mp h
    have hcolon : ¬ (c = ':' && cs.head?.all isWhite) = true := by
      simp only [Bool.and_eq_true, decide_eq_true_eq, not_and]
      rintro rfl
      rw [if_pos (by decide)] at hc
      cases cs with
      | nil => simp at hc
      | cons d cs =>
        have hd : isNs d = true := by simpa using hc
        simp [not_white_of_isNs hd]
    rw [splitKey, if_neg hcolon, splitKey_of_plainRest hrest]
    rfl

/-! ### The lines that a writer puts -/

theorem Scans.key_line (hkey : KeySafe key) (hrest : rest.head?.all isWhite = true)
    (hjson : rest.all isJson = true) (hinline : inlineEntry n (some key) rest = some (es, q))
    (hq : ∀ p ∈ q, b ≤ p.col) :
    Scans n [List.replicate n ' ' ++ (key ++ ':' :: rest)] (es ++ (q.map Pending.entry).toList) b := by
  have hnew : newEntry n (key ++ ':' :: rest) = some (es, q) := by
    rw [newEntry_key hkey hrest, hinline]
  have hall : (key ++ ':' :: rest).all isJson = true := by
    rw [List.all_append, json_of_plainSafe hkey.safe, List.all_cons, hjson]
    rfl
  cases hc : key with
  | nil =>
    rw [hc] at hkey
    cases hkey.safe
  | cons c key' =>
    rw [hc] at hall hnew hkey
    obtain ⟨hwhite, -, hhash⟩ := head_of_plainSafe hkey.safe
    exact .of_newEntry hall hwhite hhash rfl hnew hq

/-- `key: value` -/
theorem Scans.plain (hkey : KeySafe key) (hv : plainSafe v = true) :
    Scans n [List.replicate n ' ' ++ (key ++ ':' :: ' ' :: v)] [⟨n, some key, some (.plain v)⟩] n := by
  have hread : readInline ([' '] ++ v) = some (.opened v) := readInline_of_plainSafe rfl hv
  have hinline : inlineEntry n (some key) (' ' :: v) = some ([], some ⟨n, some key, v, 0⟩) := by
    rw [List.singleton_append] at hread
    simp [inlineEntry, hread]
  refine Scans.key_line hkey rfl ?_ hinline ?_
  · rw [List.all_cons, json_of_plainSafe hv]
    rfl
  · rintro p ⟨⟩
    exact Nat.le_refl n

/-- `key: "value"` -/
theorem Scans.quoted (hkey : KeySafe key) (hv : quotedSafe v = true) :
    Scans n [List.replicate n ' ' ++ (key ++ ':' :: ' ' :: '"' :: v ++ ['"'])]
      [⟨n, some key, some (.quoted v)⟩] b := by
  have hline : key ++ ':' :: ' ' :: '"' :: v ++ ['"'] = key ++ ':' :: ([' '] ++ '"' :: v ++ ['"']) := by
    simp
  have hinline : inlineEntry n (some key) ([' '] ++ '"' :: v ++ ['"']) =
      some ([⟨n, some key, some (.quoted v)⟩], none) := by
    rw [inlineEntry, readInline_of_quotedSafe rfl hv]
    rfl
  rw [hline]
  refine Scans.key_line hkey rfl ?_ hinline (by simp)
  simp only [quotedSafe, List.all_eq_true, Bool.and_eq_true] at hv
  have hall : v.all isJson = true := List.all_eq_true.mpr fun c hc => (hv c hc).1.1
  simp [hall, isJson]

/-- `key:` -/
theorem Scans.header {key : List Char} (hkey : KeySafe key) :
    Scans n [List.replicate n ' ' ++ (key ++ [':'])] [⟨n, some key, none⟩] b := by
  have hinline : inlineEntry n (some key) [] = some ([⟨n, some key, none⟩], none) := rfl
  exact Scans.key_line hkey rfl rfl hinline (by simp)

theorem dropSpaces_of_plainSafe (h : plainSafe cs = true) :
    (' ' :: cs).dropWhile (· = ' ') = cs := by
  cases cs with
  | nil => cases h
  | cons c cs =>
    have hc : c ≠ ' ' := by
      rintro rfl
      exact absurd (head_of_plainSafe h).1 (by decide)
    rw [List.dropWhile_cons_of_pos (by simp), List.dropWhile_cons_of_neg (by simp [hc])]

/-- `- value` -/
theorem Scans.item (hv : plainSafe v = true) :
    Scans n [List.replicate n ' ' ++ '-' :: ' ' :: v] [⟨n, none, some (.plain v)⟩] n := by
  have hinline : readInline ([] ++ v) = some (.opened v) := readInline_of_plainSafe rfl hv
  rw [List.nil_append] at hinline
  have hnew : newEntry n ('-' :: ' ' :: v) = some ([], some ⟨n, none, v, 0⟩) := by
    simp [newEntry, itemEntry, dropSpaces_of_plainSafe hv, splitKey_of_plainSafe hv, inlineEntry,
      hinline]
  refine Scans.of_newEntry ?_ rfl (by decide) rfl hnew ?_
  · simp [json_of_plainSafe hv, isJson]
  · rintro p ⟨⟩
    exact Nat.le_refl n

/-- `- key: value` -/
theorem Scans.item_key (hkey : KeySafe key) (hv : plainSafe v = true) :
    Scans n [List.replicate n ' ' ++ '-' :: ' ' :: (key ++ ':' :: ' ' :: v)]
      [⟨n, none, none⟩, ⟨n + 2, some key, some (.plain v)⟩] (n + 2) := by
  have hinline : readInline ([' '] ++ v) = some (.opened v) := readInline_of_plainSafe rfl hv
  rw [List.singleton_append] at hinline
  have hdrop : (' ' :: (key ++ ':' :: ' ' :: v)).dropWhile (· = ' ') = key ++ ':' :: ' ' :: v := by
    cases hc : key with
    | nil =>
      rw [hc] at hkey
      cases hkey.safe
    | cons c key' =>
      have hne : c ≠ ' ' := by
        rintro rfl
        rw [hc] at hkey
        exact absurd (head_of_plainSafe hkey.safe).1 (by decide)
      rw [List.dropWhile_cons_of_pos (by simp), List.cons_append,
        List.dropWhile_cons_of_neg (by simp [hne])]
  have hquote : (key ++ ':' :: ' ' :: v).head? ≠ some '"' := by
    cases hc : key with
    | nil => simp
    | cons c key' =>
      rw [hc] at hkey
      simpa using (head_of_plainSafe hkey.safe).2.1
  have hsplit : splitKey (key ++ ':' :: ' ' :: v) = some (key, ' ' :: v) :=
    splitKey_append hkey.colon rfl
  have hcol : n + 1 + ((' ' :: (key ++ ':' :: ' ' :: v)).length -
      (key ++ ':' :: ' ' :: v).length) = n + 2 := by
    rw [List.length_cons]
    omega
  have hnew : newEntry n ('-' :: ' ' :: (key ++ ':' :: ' ' :: v)) =
      some ([⟨n, none, none⟩], some ⟨n + 2, some key, v, 0⟩) := by
    have hitem : itemEntry n (' ' :: (key ++ ':' :: ' ' :: v)) =
        some ([⟨n, none, none⟩], some ⟨n + 2, some key, v, 0⟩) := by
      have hcond : ¬ (decide ((key ++ ':' :: ' ' :: v).head? = some '"') ||
          (splitKey (key ++ ':' :: ' ' :: v)).isNone) = true := by
        rw [hsplit, Option.isNone_some, Bool.or_false, decide_eq_true_eq]
        exact hquote
      simp only [itemEntry, hdrop, if_neg hcond, hcol]
      rw [keyEntry_append hkey rfl]
      simp [inlineEntry, hinline]
    simpa [newEntry] using hitem
  refine Scans.of_newEntry ?_ rfl (by decide) rfl hnew ?_
  · simp [json_of_plainSafe hkey.safe, json_of_plainSafe hv, isJson]
  · rintro p ⟨⟩
    exact Nat.le_refl _

end BlockYaml
