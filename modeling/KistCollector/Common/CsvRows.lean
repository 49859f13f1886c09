import KistCollector.Common.RowRecorder
import KistCollector.Lib.Scanf

/-!
# Rows and headers of CSV streams

Headers and rows are put together by `snprintf` calls into fixed-size buffers. A `Schema` says what a
stream holds: its columns, the name of each, and the field each has in the row of a record. A header and
a row function agree with a schema (`Schema.Agrees`) if no buffer cuts them and, split at the commas, they
are the names and the fields of the same columns in the same order.
-/

namespace Kist

open Text Scanf

/-- `snprintf` into a buffer of `n` characters, the last of which ends the string. -/
def snprintf (n : Nat) (cs : List Char) : List Char := cs.take (n - 1)

theorem snprintf_eq {cs : List Char} (h : cs.length < n) : snprintf n cs = cs :=
  List.take_of_length_le (by omega)

/-! ## Sequences of prints -/

/-- One `snprintf` into a buffer of `size` characters. -/
structure Print where
  size : Nat
  text : List Char

namespace Print

/-- The buffer holds the whole text. -/
def Fits (p : Print) : Prop := p.text.length < p.size

/-- The buffers, appended to a row one after the other. -/
def append (ps : List Print) : List Char := ps.flatMap fun p => snprintf p.size p.text

theorem append_eq (h : ∀ p ∈ ps, p.Fits) : append ps = ps.flatMap (·.text) := by
  induction ps with
  | nil => rfl
  | cons p ps ih =>
    obtain ⟨hp, hps⟩ := List.forall_mem_cons.mp h
    have ih := ih hps
    rw [append] at ih ⊢
    rw [List.flatMap_cons, List.flatMap_cons, ih, snprintf_eq hp]

end Print

/-- What `,%…,%…` prints: each field after a comma. -/
def fields (xs : List (List Char)) : List Char := xs.flatMap (',' :: ·)

@[simp] theorem fields_nil : fields [] = [] := rfl

@[simp] theorem fields_cons (x : List Char) (xs : List (List Char)) :
    fields (x :: xs) = ',' :: x ++ fields xs := rfl

@[simp] theorem fields_append (xs ys : List (List Char)) :
    fields (xs ++ ys) = fields xs ++ fields ys := List.flatMap_append

theorem fields_map (l : List α) (f : α → List Char) :
    fields (l.map f) = l.flatMap fun a => fields [f a] := by
  simp [fields, List.flatMap_map]

theorem fields_flatMap (l : List α) (f : α → List (List Char)) :
    fields (l.flatMap f) = l.flatMap fun a => fields (f a) := List.flatMap_assoc

theorem intercalate_cons_fields (x : List Char) (xs : List (List Char)) :
    [','].intercalate (x :: xs) = x ++ fields xs := by
  induction xs generalizing x with
  | nil => simp
  | cons y xs ih => rw [List.intercalate_cons_cons, ih, fields_cons, List.append_assoc]; rfl

theorem intercalate_append_fields {xs : List (List Char)} (h : xs ≠ []) (ys : List (List Char)) :
    [','].intercalate (xs ++ ys) = [','].intercalate xs ++ fields ys := by
  obtain ⟨x, xs, rfl⟩ := List.exists_cons_of_ne_nil h
  rw [List.cons_append, intercalate_cons_fields, intercalate_cons_fields, fields_append,
    List.append_assoc]

theorem length_fields_le (h : ∀ x ∈ xs, x.length ≤ n) : (fields xs).length ≤ xs.length * (n + 1) := by
  induction xs with
  | nil => exact Nat.zero_le _
  | cons x xs ih =>
    obtain ⟨hx, hxs⟩ := List.forall_mem_cons.mp h
    have ih := ih hxs
    rw [fields_cons, List.length_append, List.length_cons, List.length_cons, Nat.succ_mul]
    omega

/-- Columns that run over two indices are distinct. -/
theorem nodup_flatMap_map {l : List α} {l' : List β} {f : α → β → γ} (hl : l.Nodup) (hl' : l'.Nodup)
    (hf : ∀ {a b a' b'}, f a b = f a' b' → a = a' ∧ b = b') :
    (l.flatMap fun a => l'.map (f a)).Nodup := by
  have hmap : l.flatMap (fun a => l'.map (f a)) = (l ×ˢ l').map fun p => f p.1 p.2 := by
    simp only [SProd.sprod, List.product, List.map_flatMap, List.map_map]
    rfl
  rw [hmap]
  refine (hl.product hl').map ?_
  intro p p' h
  exact Prod.ext (hf h).1 (hf h).2

/-! ## Schemas -/

/-- A text that can stand in a field: without commas and line breaks. -/
def Plain (cs : List Char) : Prop := ',' ∉ cs ∧ '\n' ∉ cs

instance : DecidablePred Plain := fun _ => inferInstanceAs (Decidable (_ ∧ _))

theorem Plain.append (h : Plain cs) (h' : Plain cs') : Plain (cs ++ cs') :=
  ⟨fun hm => (List.mem_append.mp hm).elim h.1 h'.1, fun hm => (List.mem_append.mp hm).elim h.2 h'.2⟩

theorem Plain.cons {c : Char} (hc : c ≠ ',' ∧ c ≠ '\n') (h : Plain cs) : Plain (c :: cs) :=
  ⟨fun hm => (List.mem_cons.mp hm).elim (fun heq => hc.1 heq.symm) h.1,
    fun hm => (List.mem_cons.mp hm).elim (fun heq => hc.2 heq.symm) h.2⟩

theorem plain_decimal (n : Nat) : Plain (decimal n) :=
  ⟨not_mem_decimal (by decide), not_mem_decimal (by decide)⟩

theorem plain_integer (z : Int) : Plain (integer z) := by
  cases z with
  | ofNat n => exact plain_decimal n
  | negSucc n => exact (plain_decimal (n + 1)).cons (by decide)

/-- The columns of a stream of records `M`, each once: their names in the header and their fields in the
row of a record. -/
structure Schema (M C : Type) where
  columns : List C
  name : C → List Char
  field : M → Int64 → C → List Char
  mem_columns : ∀ c, c ∈ columns
  columns_nodup : columns.Nodup
  columns_ne_nil : columns ≠ []
  name_injective : Function.Injective name
  name_plain : ∀ c, Plain (name c)
  field_plain : ∀ m recvNs c, Plain (field m recvNs c)

namespace Schema

variable {M C : Type}

/-- A header and a row function have the columns of the schema, and no buffer cuts what is printed. -/
structure Agrees (S : Schema M C) (header : List Char) (headerPrints : List Print) (row : RowFn M)
    (rowPrints : M → Int64 → List Print) : Prop where
  header_fits : ∀ p ∈ headerPrints, p.Fits
  row_fits : ∀ m recvNs, ∀ p ∈ rowPrints m recvNs, p.Fits
  header_names : header.splitOn ',' = S.columns.map S.name
  row_fields : ∀ m recvNs, (row m recvNs).splitOn ',' = S.columns.map (S.field m recvNs)

theorem splitOn_intercalate (S : Schema M C) {f : C → List Char} (h : ∀ c, Plain (f c)) :
    ([','].intercalate (S.columns.map f)).splitOn ',' = S.columns.map f := by
  apply List.splitOn_intercalate
  · intro l hl
    obtain ⟨c, -, rfl⟩ := List.mem_map.mp hl
    exact (h c).1
  · exact fun hnil => S.columns_ne_nil (List.map_eq_nil_iff.mp hnil)

/-- It is enough to know the texts, as no buffer cuts them. -/
theorem agrees_of_text (S : Schema M C) {start : List Char} {headerPrints : List Print}
    {rowPrints : M → Int64 → List Print} (hheader : ∀ p ∈ headerPrints, p.Fits)
    (hrow : ∀ m recvNs, ∀ p ∈ rowPrints m recvNs, p.Fits)
    (hnames : start ++ headerPrints.flatMap (·.text) = [','].intercalate (S.columns.map S.name))
    (hfields : ∀ m recvNs, (rowPrints m recvNs).flatMap (·.text) =
      [','].intercalate (S.columns.map (S.field m recvNs))) :
    S.Agrees (start ++ Print.append headerPrints) headerPrints
      (fun m recvNs => Print.append (rowPrints m recvNs)) rowPrints where
  header_fits := hheader
  row_fits := hrow
  header_names := by
    rw [Print.append_eq hheader, hnames, S.splitOn_intercalate S.name_plain]
  row_fields m recvNs := by
    rw [Print.append_eq (hrow m recvNs), hfields, S.splitOn_intercalate (S.field_plain m recvNs)]

variable {S : Schema M C} {header : List Char} {headerPrints : List Print} {row : RowFn M}
  {rowPrints : M → Int64 → List Print}

namespace Agrees

/-- A row has as many fields as the header. -/
theorem length_eq (H : S.Agrees header headerPrints row rowPrints) (m : M) (recvNs : Int64) :
    ((row m recvNs).splitOn ',').length = (header.splitOn ',').length := by
  rw [H.row_fields, H.header_names, List.length_map, List.length_map]

/-- The field under the `k`-th name is the field of the column with that name. -/
theorem field_of_name (H : S.Agrees header headerPrints row rowPrints) (m : M) (recvNs : Int64)
    {k : Nat} {c : C} (hk : (header.splitOn ',')[k]? = some (S.name c)) :
    ((row m recvNs).splitOn ',')[k]? = some (S.field m recvNs c) := by
  rw [H.header_names, List.getElem?_map] at hk
  rw [H.row_fields, List.getElem?_map]
  obtain ⟨c', hc', hname⟩ := Option.map_eq_some_iff.mp hk
  rw [hc', S.name_injective hname, Option.map_some]

theorem newline_not_mem {cs : List Char} {f : C → List Char} (h : cs.splitOn ',' = S.columns.map f)
    (hf : ∀ c, Plain (f c)) : '\n' ∉ cs := by
  have hcs : [','].intercalate (cs.splitOn ',') = cs := List.intercalate_splitOn ..
  rw [← hcs, h]
  obtain ⟨c, cols, hcols⟩ := List.exists_cons_of_ne_nil S.columns_ne_nil
  rw [hcols, List.map_cons, intercalate_cons_fields, fields, List.mem_append, List.mem_flatMap]
  intro hm
  rcases hm with hm | ⟨x, hx, hm⟩
  · exact (hf c).2 hm
  · obtain ⟨c', -, rfl⟩ := List.mem_map.mp hx
    rcases List.mem_cons.mp hm with hm | hm
    · exact absurd hm (by decide)
    · exact (hf c').2 hm

/-- **The file of a stream.** After a run in which no write fails, every line of the CSV file has the
fields of the columns: first the names, then one line for each record accepted, in push order. -/
theorem csv_columns (H : S.Agrees header headerPrints row rowPrints) {s₀ s : RowRecorder M}
    (hopen : RowRecorder.new.open csv header cap = (true, s₀))
    (h : (RowRecorder.machine row).run s₀ ls = some (s, es)) (hc : s.closer = .closed)
    (hgood : s.out.bad = false) :
    (getlines s.out.file).map (·.splitOn ',') =
      S.columns.map S.name :: (Recorder.accepted es).map fun r => S.columns.map (S.field r.1 r.2) := by
  rw [RowRecorder.file_eq_csvOf hopen h hc hgood, RowRecorder.csvOf, getlines_unlines]
  · rw [List.map_cons, List.map_map, H.header_names]
    congr 1
    exact List.map_congr_left fun r _ => H.row_fields r.1 r.2
  · intro l hl
    rcases List.mem_cons.mp hl with rfl | hl
    · exact newline_not_mem H.header_names S.name_plain
    · obtain ⟨r, -, rfl⟩ := List.mem_map.mp hl
      exact newline_not_mem (H.row_fields r.1 r.2) (S.field_plain r.1 r.2)

end Agrees

end Schema
end Kist
