import Mathlib
import TableExport.Markup.Attribute
import TableExport.Proofs.Entries

/-!
# Attributes as they are written

A tag with attributes is written with a space before each of them and their values in quotes. As
long as no name holds what ends a name, and no value a quote or a reference, each attribute is found
under its name (`Markup.Tag.attribute?_written`). The names and values are texts, so this rests on
what the bytes of a text are: those of ASCII stand for themselves only (`mem_toList_of_byte_mem`).
-/

namespace TableExport.Markup

/-! ## Bytes of a text -/

theorem toList_loop_eq (bytes : ByteArray) (i : ℕ) (before : List UInt8) :
    ByteArray.toList.loop bytes i before = before.reverse ++ bytes.data.toList.drop i := by
  fun_induction ByteArray.toList.loop bytes i before with
  | case1 i before h ih =>
    have hlt : i < bytes.data.toList.length := h
    rw [ih, List.drop_eq_getElem_cons hlt, List.reverse_cons, List.append_assoc,
      List.singleton_append]
    have hget : bytes.get! i = bytes.data.toList[i] := by
      rw [Array.getElem_toList]
      exact getElem!_pos bytes.data i h
    rw [hget]
  | case2 i before h =>
    rw [List.drop_eq_nil_of_le (not_lt.1 h), List.append_nil]

theorem toList_eq (bytes : ByteArray) : bytes.toList = bytes.data.toList := by
  rw [ByteArray.toList, toList_loop_eq, List.reverse_nil, List.nil_append, List.drop_zero]

theorem toList_toUTF8 (text : String) :
    text.toUTF8.toList = text.toList.flatMap String.utf8EncodeChar := by
  rw [toList_eq, String.toUTF8, ← String.utf8Encode_toList, List.utf8Encode,
    List.toList_data_toByteArray]

/-- The bytes of a text are decoded to it. -/
theorem decode?_toUTF8 (text : String) : decode? text.toUTF8.toList = some text := by
  rw [decode?, toList_eq]
  exact dif_pos text.isValidUTF8

theorem ofString_injective : Function.Injective Name.ofString := by
  intro first second h
  have hdecoded := congrArg decode? h
  rw [Name.ofString, Name.ofString, decode?_toUTF8, decode?_toUTF8] at hdecoded
  exact Option.some.inj hdecoded

/-- A byte of ASCII stands for itself only. -/
theorem eq_of_byte_mem_utf8EncodeChar {c d : Char} (hd : d.toNat < 128)
    (h : byte d ∈ String.utf8EncodeChar c) : c = d := by
  have hbyte : (byte d).toNat = d.toNat := by
    rw [byte, Nat.toUInt8_eq, UInt8.toNat_ofNat', Nat.mod_eq_of_lt (by omega)]
  have hlarge : ∀ n, 128 ≤ n → n < 256 → byte d ≠ UInt8.ofNat n := by
    intro n hn hn' heq
    have hnat := congrArg UInt8.toNat heq
    rw [hbyte, UInt8.toNat_ofNat', Nat.mod_eq_of_lt hn'] at hnat
    omega
  have hval : c.val.toNat = c.toNat := rfl
  simp only [String.utf8EncodeChar] at h
  split_ifs at h with hone
  · have hnat := congrArg UInt8.toNat (List.mem_singleton.1 h)
    rw [hbyte, UInt8.toNat_ofNat', Nat.mod_eq_of_lt (by omega)] at hnat
    exact Char.toNat_inj.1 (hval.symm.trans hnat.symm)
  all_goals
    simp only [List.mem_cons, List.not_mem_nil, or_false] at h
    casesm* _ ∨ _ <;> exact absurd h (hlarge _ (by omega) (by omega))

theorem mem_toList_of_byte_mem {text : String} {d : Char} (hd : d.toNat < 128)
    (h : byte d ∈ text.toUTF8.toList) : d ∈ text.toList := by
  rw [toList_toUTF8, List.mem_flatMap] at h
  obtain ⟨c, hc, hbyte⟩ := h
  rwa [eq_of_byte_mem_utf8EncodeChar hd hbyte] at hc

/-! ## Writing attributes -/

/-- An attribute as it is written. -/
def attributeBytes (pair : String × String) : List UInt8 :=
  byte ' ' :: (Name.ofString pair.1 ++
    byte '=' :: byte '"' :: (pair.2.toUTF8.toList ++ [byte '"']))

/-- The tag with a name and attributes. -/
def Tag.written (name : String) (attributes : Entries String) : Tag :=
  ⟨Name.ofString name, attributes.flatMap attributeBytes⟩

/-- A name and a value that can be written as they are. -/
structure Plain (pair : String × String) : Prop where
  name_ne : pair.1 ≠ ""
  name : ∀ c ∈ pair.1.toList, c ∉ ['=', ':', ' ', '\t', '\n', '\r']
  value : ∀ c ∈ pair.2.toList, c ∉ ['"', '&']

/-- Attributes that can be written as they are, with different names. -/
structure PlainEntries (attributes : Entries String) : Prop where
  plain : ∀ pair ∈ attributes, Plain pair
  nodup : attributes.keys.Nodup

variable {pair : String × String} {attributes : Entries String} {wanted : String}

theorem plainEntries_nil : PlainEntries [] := ⟨List.forall_mem_nil _, List.nodup_nil⟩

theorem plainEntries_singleton (h : Plain pair) : PlainEntries [pair] :=
  ⟨List.forall_mem_singleton.2 h, List.nodup_singleton _⟩

theorem isNamed_written {name other : String} :
    (Tag.written name attributes).isNamed other = (name == other) := by
  rw [Tag.isNamed, Tag.written, Bool.eq_iff_iff, beq_iff_eq, beq_iff_eq]
  exact ofString_injective.eq_iff

/-! ## Reading them -/

theorem unescapeFrom?_of_plain {text : List Char} (h : '&' ∉ text) :
    unescapeFrom? none text = some text := by
  induction text with
  | nil => rfl
  | cons c rest ih =>
    obtain ⟨hc, hrest⟩ := not_or.1 (List.mem_cons.not.1 h)
    rw [unescapeFrom?]
    simp only [if_neg (Ne.symm hc), ih hrest, Option.map_some]

theorem attributeText_of_plain {value : String} (h : '&' ∉ value.toList) :
    attributeText value.toUTF8.toList = .ok value := by
  rw [attributeText, decode?_toUTF8, Option.bind_some, unescape?, unescapeFrom?_of_plain h,
    Option.map_some, String.ofList_toList]

theorem Plain.not_mem_name (h : Plain pair) {d : Char} (hd : d.toNat < 128)
    (hin : d ∈ ['=', ':', ' ', '\t', '\n', '\r']) : byte d ∉ Name.ofString pair.1 :=
  fun hmem => h.name d (mem_toList_of_byte_mem hd hmem) hin

/-- The bytes that end the name of an attribute do not stand in it. -/
theorem Plain.not_ends (h : Plain pair) :
    ∀ b ∈ Name.ofString pair.1, (!(b == byte '=' || isSpace b)) = true := by
  intro b hb
  simp only [isSpace, Bool.not_eq_true', Bool.or_eq_false_iff, beq_eq_false_iff_ne]
  refine ⟨?_, ⟨⟨?_, ?_⟩, ?_⟩, ?_⟩ <;>
  · rintro rfl
    exact h.not_mem_name (by decide) (by decide) hb

theorem Plain.local_name (h : Plain pair) :
    (Name.ofString pair.1).local = Name.ofString pair.1 := by
  have hcolon : (Name.ofString pair.1).dropWhile (· != byte ':') = [] := by
    refine List.dropWhile_eq_nil_iff.2 fun b hb => ?_
    rw [bne_iff_ne]
    rintro rfl
    exact h.not_mem_name (by decide) (by decide) hb
  rw [Name.local, hcolon]

theorem Plain.ofString_ne (h : Plain pair) : Name.ofString pair.1 ≠ [] := by
  have hempty : Name.ofString "" = [] := ByteArray.toList_empty
  rw [← hempty]
  exact ofString_injective.ne h.name_ne

theorem splitValue?_written (h : Plain pair) (rest : List UInt8) :
    splitValue? (byte '"' :: (pair.2.toUTF8.toList ++ byte '"' :: rest)) =
      some (pair.2.toUTF8.toList, rest) := by
  have hquote : ∀ b ∈ pair.2.toUTF8.toList, (b != byte '"') = true := by
    intro b hb
    rw [bne_iff_ne]
    rintro rfl
    exact h.value _ (mem_toList_of_byte_mem (by decide) hb) (by decide)
  rw [splitValue?, List.dropWhile_append_of_pos hquote, List.takeWhile_append_of_pos hquote]
  simp

/-- **An attribute is split off as it was written.** -/
theorem splitAttribute?_written (h : Plain pair) (rest : List UInt8) :
    splitAttribute? ((attributeBytes pair ++ rest).drop 1) =
      some (Name.ofString pair.1, pair.2.toUTF8.toList, rest) := by
  have hends := h.not_ends
  have hvalue := splitValue?_written h rest
  rw [attributeBytes, List.cons_append, List.drop_one, List.tail_cons]
  simp only [List.append_assoc, List.cons_append, List.nil_append]
  cases hname : Name.ofString pair.1 with
  | nil => exact absurd hname h.ofString_ne
  | cons first name =>
    rw [hname, List.forall_mem_cons] at hends
    have hequals : isSpace (byte '=') = false := by decide
    have hspace : isSpace (byte '"') = false := by decide
    rw [List.cons_append, splitAttribute?]
    simp only [List.dropWhile_append_of_pos hends.2, List.takeWhile_append_of_pos hends.2]
    simp only [List.takeWhile_cons, List.dropWhile_cons, beq_self_eq_true, Bool.true_or,
      Bool.not_true, Bool.false_eq_true, if_false, if_true, hequals, hspace, hvalue,
      List.append_nil, Option.map_some]

/-- The name of the first attribute decides whether it is the wanted one. -/
theorem findAttribute_cons {seen : List Name} {fuel : ℕ} (h : Plain pair)
    (hseen : Name.ofString pair.1 ∉ seen) (rest : List UInt8) :
    findAttribute (Name.ofString wanted) seen (fuel + 1) (attributeBytes pair ++ rest) =
      if pair.1 = wanted then .ok (some pair.2)
      else findAttribute (Name.ofString wanted) (Name.ofString pair.1 :: seen) fuel rest := by
  have hsplit := splitAttribute?_written h rest
  have hstart : (attributeBytes pair ++ rest).dropWhile isSpace =
      (attributeBytes pair ++ rest).drop 1 := by
    cases hname : Name.ofString pair.1 with
    | nil => exact absurd hname h.ofString_ne
    | cons first name =>
      have hfirst := h.not_ends first (by simp [hname])
      rw [Bool.not_eq_true', Bool.or_eq_false_iff] at hfirst
      have hspace : isSpace (byte ' ') = true := by decide
      rw [attributeBytes, hname]
      simp [hspace, hfirst.2]
  have hempty : ((attributeBytes pair ++ rest).drop 1).isEmpty = false := by
    cases hbytes : (attributeBytes pair ++ rest).drop 1 with
    | nil =>
      rw [hbytes] at hsplit
      cases hsplit
    | cons first bytes => rfl
  have htext : attributeText pair.2.toUTF8.toList = .ok pair.2 :=
    attributeText_of_plain fun hmem => h.value '&' hmem (by decide)
  have hsame : (Name.ofString pair.1 == Name.ofString wanted) = (pair.1 == wanted) := by
    rw [Bool.eq_iff_iff, beq_iff_eq, beq_iff_eq]
    exact ofString_injective.eq_iff
  rw [findAttribute, hstart]
  simp only [hempty, hsplit, List.contains_eq_mem, decide_eq_true_eq, hseen, h.local_name, hsame,
    htext, beq_iff_eq, Bool.false_eq_true, if_false, Except.map]

theorem findAttribute_written {seen : List Name} {fuel : ℕ}
    (hplain : ∀ pair ∈ attributes, Plain pair) (hnodup : attributes.keys.Nodup)
    (hseen : ∀ key ∈ attributes.keys, Name.ofString key ∉ seen) (hfuel : attributes.length < fuel) :
    findAttribute (Name.ofString wanted) seen fuel (attributes.flatMap attributeBytes) =
      .ok (attributes.get? wanted) := by
  induction attributes generalizing seen fuel with
  | nil =>
    cases fuel with
    | zero => rfl
    | succ fuel => rfl
  | cons pair rest ih =>
    obtain ⟨hpair, hrest⟩ := List.forall_mem_cons.1 hplain
    obtain ⟨hnew, hnodup⟩ := List.nodup_cons.1 hnodup
    obtain ⟨hfirst, hseen⟩ := List.forall_mem_cons.1 hseen
    obtain ⟨fuel, rfl⟩ := Nat.exists_eq_succ_of_ne_zero (Nat.ne_zero_of_lt hfuel)
    rw [List.flatMap_cons, findAttribute_cons hpair hfirst]
    by_cases hname : pair.1 = wanted
    · rw [if_pos hname, ← hname, Entries.get?_cons_self]
    · rw [if_neg hname, Entries.get?_cons_of_ne hname]
      refine ih hrest hnodup (fun key hkey => ?_) (Nat.lt_of_succ_lt_succ hfuel)
      rw [List.mem_cons, not_or]
      exact ⟨fun heq => hnew (ofString_injective heq ▸ hkey), hseen key hkey⟩

/-- **The attributes of a tag are found under their names.** -/
theorem Tag.attribute?_written (h : PlainEntries attributes) (name wanted : String) :
    (Tag.written name attributes).attribute? wanted = .ok (attributes.get? wanted) := by
  have hlength : attributes.length ≤ (attributes.flatMap attributeBytes).length := by
    clear h
    induction attributes with
    | nil => exact Nat.zero_le _
    | cons pair rest ih =>
      rw [List.flatMap_cons, List.length_append, attributeBytes, List.length_cons, List.length_cons]
      omega
  exact findAttribute_written h.plain h.nodup (fun _ _ => List.not_mem_nil)
    (Nat.lt_succ_of_le hlength)

end TableExport.Markup
