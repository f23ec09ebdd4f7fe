import TableExport.Proofs.Entries
import TableExport.Proofs.Markup.Attributes
import TableExport.Workbook.Part

/-!
# Packed archives

An archive of stored parts is opened again (`Archive.open?_pack`), and each part is read with the
content that it was packed with (`Archive.content?_packed`), as long as the sizes fit the fields that
hold them. The fields of a header are numbers in a row, so a number is read at the place that the
sizes before it add up to (`Archive.number_field`).
-/

namespace TableExport.Archive

/-! ## Bytes at a position -/

/-- Some bytes stand at a position. -/
def StandsAt (bytes : ByteArray) (position : Nat) (chunk : List UInt8) : Prop :=
  chunk <+: bytes.data.toList.drop position

variable {bytes : ByteArray} {position : Nat} {chunk first second : List UInt8}

theorem StandsAt.left (h : StandsAt bytes position (first ++ second)) :
    StandsAt bytes position first :=
  (List.prefix_append first second).trans h

theorem StandsAt.right (h : StandsAt bytes position (first ++ second)) :
    StandsAt bytes (position + first.length) second := by
  obtain ⟨rest, hrest⟩ := h
  refine ⟨rest, ?_⟩
  rw [← List.drop_drop, ← hrest, List.append_assoc, List.drop_left]

theorem StandsAt.le_size (h : StandsAt bytes position chunk) (hne : chunk ≠ []) :
    position + chunk.length ≤ bytes.size := by
  have hlength := List.IsPrefix.length_le h
  have hpos := List.length_pos_iff.2 hne
  have hsize : bytes.data.toList.length = bytes.size := rfl
  rw [List.length_drop, hsize] at hlength
  omega

/-- Bytes that stand between others. -/
theorem standsAt_of_eq {before : List UInt8} (after : List UInt8)
    (h : bytes.data.toList = before ++ chunk ++ after) : StandsAt bytes before.length chunk := by
  refine ⟨after, ?_⟩
  rw [h, List.append_assoc, List.drop_left]

theorem extract_of_standsAt (h : StandsAt bytes position chunk) :
    (bytes.extract position (position + chunk.length)).data.toList = chunk := by
  rw [ByteArray.data_extract, Array.toList_extract, List.extract_eq_take_drop,
    Nat.add_sub_cancel_left]
  exact List.prefix_iff_eq_take.1 h |>.symm

/-! ## Numbers -/

@[simp] theorem length_numberBytes (n count : Nat) : (numberBytes n count).length = count := by
  induction count generalizing n with
  | zero => rfl
  | succ count ih => rw [numberBytes, List.length_cons, ih]

theorem number_of_standsAt {n count : Nat} (h : StandsAt bytes position (numberBytes n count)) :
    number bytes position count = n % 256 ^ count := by
  induction count generalizing n position with
  | zero => rw [number, pow_zero, Nat.mod_one]
  | succ count ih =>
    rw [numberBytes, ← List.singleton_append] at h
    have hbyte : bytes[position]? = some (n % 256).toUInt8 := by
      obtain ⟨rest, hrest⟩ := h
      have hget : (bytes.data.toList.drop position)[0]? = some (n % 256).toUInt8 := by
        rw [← hrest]
        rfl
      rw [List.getElem?_drop, Nat.add_zero, Array.getElem?_toList] at hget
      exact hget
    have hvalue : ((n % 256).toUInt8).toNat = n % 256 := by
      rw [Nat.toUInt8_eq, UInt8.toNat_ofNat', Nat.mod_eq_of_lt (Nat.mod_lt _ (by decide))]
    have hrest : number bytes (position + 1) count = n / 256 % 256 ^ count := ih h.right
    rw [number, hbyte, Option.map_some, Option.getD_some, hvalue, hrest, pow_succ', Nat.mod_mul]

/-- The bytes of some numbers. -/
def fieldBytes (fields : List (Nat × Nat)) : List UInt8 :=
  fields.flatMap fun field => numberBytes field.1 field.2

@[simp] theorem toList_record (fields : List (Nat × Nat)) :
    (record fields).data.toList = fieldBytes fields := rfl

theorem length_fieldBytes (fields : List (Nat × Nat)) :
    (fieldBytes fields).length = (fields.map Prod.snd).sum := by
  rw [fieldBytes, List.length_flatMap]
  simp

/-- **A number is read at its place among others**, which have known sizes. -/
theorem number_field {fields : List (Nat × Nat)} {sizes : List Nat} {n size place : Nat} (i : Nat)
    (h : StandsAt bytes position (fieldBytes fields)) (hsizes : fields.map Prod.snd = sizes)
    (hfield : fields[i]? = some (n, size)) (hplace : (sizes.take i).sum = place)
    (hlt : n < 256 ^ size) : number bytes (position + place) size = n := by
  obtain ⟨hi, hget⟩ := List.getElem?_eq_some_iff.1 hfield
  have hsplit : fields = fields.take i ++ (n, size) :: fields.drop (i + 1) := by
    rw [← hget, ← List.drop_eq_getElem_cons hi, List.take_append_drop]
  rw [hsplit, fieldBytes, List.flatMap_append, List.flatMap_cons] at h
  have hnumber := h.right.left
  rw [← fieldBytes, length_fieldBytes, List.map_take, hsizes, hplace] at hnumber
  rw [number_of_standsAt hnumber, Nat.mod_eq_of_lt hlt]

theorem hasSignature_of_standsAt {signature : Nat} {fields : List (Nat × Nat)}
    (h : StandsAt bytes position (fieldBytes ((signature, 4) :: fields)))
    (hlt : signature < 256 ^ 4) : hasSignature bytes position signature = true := by
  have hnumber : number bytes position 4 = signature := number_field 0 h rfl rfl rfl hlt
  have hsize := h.le_size (List.ne_nil_of_length_pos (by simp [length_fieldBytes]))
  rw [length_fieldBytes, List.map_cons, List.sum_cons] at hsize
  rw [hasSignature, hnumber, beq_self_eq_true, Bool.and_true,
    decide_eq_true_eq]
  omega

/-! ## Packing -/

/-- The bytes of a part: its header, its name and its content. -/
def partBytes (part : String × ByteArray) : List UInt8 :=
  fieldBytes ((partSignature, 4) :: partFields part.1 part.2) ++
    (part.1.toUTF8.data.toList ++ part.2.data.toList)

/-- The fields of a part in the directory. -/
def entryFields (offset : Nat) (part : String × ByteArray) : List (Nat × Nat) :=
  (entrySignature, 4) :: (20, 2) :: partFields part.1 part.2 ++
    [(0, 2), (0, 2), (0, 2), (0, 4), (offset, 4)]

/-- The directory of parts that lie behind each other from an offset on. -/
def directoryBytes : Nat → List (String × ByteArray) → List UInt8
  | _, [] => []
  | offset, part :: rest =>
    fieldBytes (entryFields offset part) ++
      (part.1.toUTF8.data.toList ++ directoryBytes (offset + (partBytes part).length) rest)

/-- What the directory says about such parts. -/
def entriesFrom : Nat → List (String × ByteArray) → Entries ArchiveEntry
  | _, [] => []
  | offset, part :: rest =>
    (part.1, ⟨0x800, 0, (checksum part.2).toNat, part.2.size, offset⟩) ::
      entriesFrom (offset + (partBytes part).length) rest

/-- The archive of some parts. -/
def packed (parts : List (String × ByteArray)) : Archive := ⟨pack parts, entriesFrom 0 parts⟩

/-- The fields at the end of an archive. -/
def endFields (parts : List (String × ByteArray)) : List (Nat × Nat) :=
  [(endSignature, 4), (0, 2), (0, 2), (parts.length, 2), (parts.length, 2),
    ((directoryBytes 0 parts).length, 4), ((parts.flatMap partBytes).length, 4), (0, 2)]

theorem foldl_packPart (parts : List (String × ByteArray)) (body directory : ByteArray)
    (count : Nat) :
    let packed := parts.foldl packPart (body, directory, count)
    packed.1.data.toList = body.data.toList ++ parts.flatMap partBytes ∧
      packed.2.1.data.toList = directory.data.toList ++ directoryBytes body.size parts ∧
      packed.2.2 = count + parts.length := by
  induction parts generalizing body directory count with
  | nil => simp [directoryBytes]
  | cons part rest ih =>
    obtain ⟨name, content⟩ := part
    obtain ⟨hbody, hdirectory, hcount⟩ := ih
      (body ++ record ((partSignature, 4) :: partFields name content) ++ name.toUTF8 ++ content)
      (directory ++ record (entryFields body.size (name, content)) ++ name.toUTF8) (count + 1)
    have hsize : ∀ bytes : ByteArray, bytes.data.toList.length = bytes.size := fun _ => rfl
    have hlength : (body ++ record ((partSignature, 4) :: partFields name content) ++ name.toUTF8 ++
        content).size = body.size + (partBytes (name, content)).length := by
      rw [← hsize]
      simp [partBytes, hsize]
    rw [hlength] at hdirectory
    rw [List.foldl_cons]
    refine ⟨hbody.trans ?_, hdirectory.trans ?_, hcount.trans ?_⟩
    · simp [partBytes]
    · simp [directoryBytes]
    · rw [List.length_cons]
      omega

theorem toList_pack (parts : List (String × ByteArray)) :
    (pack parts).data.toList =
      parts.flatMap partBytes ++ (directoryBytes 0 parts ++ fieldBytes (endFields parts)) := by
  obtain ⟨hbody, hdirectory, hcount⟩ := foldl_packPart parts .empty .empty 0
  have hsize : ∀ bytes : ByteArray, bytes.data.toList.length = bytes.size := fun _ => rfl
  have hempty : ByteArray.empty.data.toList = [] := rfl
  rw [hempty, List.nil_append] at hbody hdirectory
  rw [Nat.zero_add] at hcount
  rw [pack]
  simp only [ByteArray.toList_data_append, toList_record, List.append_assoc, endFields, ← hsize,
    hbody, hdirectory, hcount]
  rfl

theorem length_toUTF8 (name : String) : name.toUTF8.data.toList.length = name.utf8ByteSize := rfl

theorem sizes_entryFields (offset : Nat) (part : String × ByteArray) :
    (entryFields offset part).map Prod.snd = [4, 2, 2, 2, 2, 2, 2, 4, 4, 4, 2, 2, 2, 2, 2, 4, 4] :=
  rfl

theorem length_entryFields (offset : Nat) (part : String × ByteArray) :
    (fieldBytes (entryFields offset part)).length = 46 := by
  rw [length_fieldBytes, sizes_entryFields]
  rfl

theorem length_partBytes (part : String × ByteArray) :
    (partBytes part).length = 30 + (part.1.utf8ByteSize + part.2.size) := by
  have hsize : part.2.data.toList.length = part.2.size := rfl
  rw [partBytes, List.length_append, List.length_append, length_fieldBytes, length_toUTF8, hsize]
  rfl

theorem length_directoryBytes (offset : Nat) (parts : List (String × ByteArray)) :
    (directoryBytes offset parts).length =
      (parts.map fun part => 46 + part.1.utf8ByteSize).sum := by
  induction parts generalizing offset with
  | nil => rfl
  | cons part rest ih =>
    rw [directoryBytes, List.length_append, List.length_append, length_entryFields, length_toUTF8,
      ih, List.map_cons, List.sum_cons, Nat.add_assoc]

/-- Parts whose numbers and sizes fit their fields, and whose names are different. -/
structure Packable (parts : List (String × ByteArray)) : Prop where
  names : ∀ part ∈ parts, part.1.utf8ByteSize < 256 ^ 2
  count : parts.length < 256 ^ 2
  body : (parts.map fun part => 30 + (part.1.utf8ByteSize + part.2.size)).sum < 256 ^ 4
  directory : (parts.map fun part => 46 + part.1.utf8ByteSize).sum < 256 ^ 4
  nodup : (parts.map fun part => folded part.1).Nodup

theorem Packable.length_body {parts : List (String × ByteArray)} (h : Packable parts) :
    (parts.flatMap partBytes).length < 256 ^ 4 := by
  rw [List.length_flatMap]
  simpa only [length_partBytes] using h.body

theorem Packable.length_directory {parts : List (String × ByteArray)} (h : Packable parts) :
    (directoryBytes 0 parts).length < 256 ^ 4 :=
  (length_directoryBytes 0 parts).trans_lt h.directory

/-! ## Reading -/

variable {parts : List (String × ByteArray)} {part : String × ByteArray} {offset : Nat}

theorem nameOf_toUTF8 {name : String} (h : bytes.data.toList = name.toUTF8.data.toList) :
    nameOf bytes = name := by
  have hbytes : bytes = name.toUTF8 := ByteArray.ext (Array.toList_inj.1 h)
  have htext : String.fromUTF8? name.toUTF8 = some name := dif_pos name.isValidUTF8
  rw [nameOf, hbytes, htext]

/-- The numbers of a record of the directory. -/
theorem numbers_of_standsAt (h : StandsAt bytes position (fieldBytes (entryFields offset part)))
    (hname : part.1.utf8ByteSize < 256 ^ 2) (hcontent : part.2.size < 256 ^ 4)
    (hoffset : offset < 256 ^ 4) :
    (number bytes (position + 28) 2 = part.1.utf8ByteSize ∧
      number bytes (position + 30) 2 = 0 ∧ number bytes (position + 32) 2 = 0) ∧
    number bytes (position + 8) 2 = 0x800 ∧ number bytes (position + 10) 2 = 0 ∧
      number bytes (position + 16) 4 = (checksum part.2).toNat ∧
      number bytes (position + 20) 4 = part.2.size ∧ number bytes (position + 42) 4 = offset := by
  have hsizes := sizes_entryFields offset part
  exact ⟨⟨number_field 10 h hsizes rfl rfl hname, number_field 11 h hsizes rfl rfl (by decide),
      number_field 12 h hsizes rfl rfl (by decide)⟩,
    number_field 3 h hsizes rfl rfl (by decide), number_field 4 h hsizes rfl rfl (by decide),
    number_field 7 h hsizes rfl rfl (UInt32.toNat_lt _), number_field 8 h hsizes rfl rfl hcontent,
    number_field 16 h hsizes rfl rfl hoffset⟩

/-- A record of the directory is read. -/
theorem readEntries?_cons {count : Nat} {rest : List UInt8} {entries : Entries ArchiveEntry}
    (h : StandsAt bytes position
      (fieldBytes (entryFields offset part) ++ (part.1.toUTF8.data.toList ++ rest)))
    (hname : part.1.utf8ByteSize < 256 ^ 2) (hcontent : part.2.size < 256 ^ 4)
    (hoffset : offset < 256 ^ 4) :
    readEntries? bytes 0 (count + 1) position entries =
      readEntries? bytes 0 count (position + (46 + part.1.utf8ByteSize))
        (entries.put part.1 ⟨0x800, 0, (checksum part.2).toNat, part.2.size, offset⟩) := by
  have hfields := h.left
  obtain ⟨⟨hnameSize, hextra, hcomment⟩, hflags, hmethod, hchecksum, hsize, hplace⟩ :=
    numbers_of_standsAt hfields hname hcontent hoffset
  have hsignature : hasSignature bytes position entrySignature = true :=
    hasSignature_of_standsAt hfields (by decide)
  have hnameAt : StandsAt bytes (position + 46) part.1.toUTF8.data.toList := by
    have hname := h.right.left
    rwa [length_entryFields] at hname
  have hend : position + (46 + part.1.utf8ByteSize) ≤ bytes.size := by
    rw [← List.append_assoc] at h
    have hle := h.left.le_size (List.append_ne_nil_of_left_ne_nil
      (List.ne_nil_of_length_pos (by rw [length_entryFields]; decide)) _)
    rwa [List.length_append, length_entryFields, length_toUTF8] at hle
  have hread := nameOf_toUTF8 (extract_of_standsAt hnameAt)
  rw [length_toUTF8] at hread
  rw [readEntries?]
  simp only [hnameSize, hextra, hcomment, hflags, hmethod, hchecksum, hsize, hplace, hsignature,
    hread, Nat.add_zero, Nat.zero_add, Bool.not_true, Bool.false_or, decide_eq_true_eq]
  rw [if_neg (by omega), if_neg (by omega)]

/-- **The directory is read.** -/
theorem readEntries?_directory {entries : Entries ArchiveEntry}
    (h : StandsAt bytes position (directoryBytes offset parts))
    (hnames : ∀ part ∈ parts, part.1.utf8ByteSize < 256 ^ 2)
    (hsize : offset + (parts.flatMap partBytes).length < 256 ^ 4)
    (hnew : (entries.keys ++ parts.map Prod.fst).Nodup) :
    readEntries? bytes 0 parts.length position entries =
      some (entries ++ entriesFrom offset parts) := by
  induction parts generalizing position offset entries with
  | nil => simp [readEntries?, entriesFrom]
  | cons part rest ih =>
    obtain ⟨hname, hnames⟩ := List.forall_mem_cons.1 hnames
    have hpart := length_partBytes part
    rw [List.flatMap_cons, List.length_append] at hsize
    have hfresh : part.1 ∉ entries.keys := fun hmem =>
      List.disjoint_of_nodup_append hnew hmem List.mem_cons_self
    rw [directoryBytes] at h
    have hrest := h.right.right
    rw [length_entryFields, length_toUTF8, Nat.add_assoc] at hrest
    rw [List.length_cons, readEntries?_cons h hname (by omega) (by omega),
      Entries.put_of_not_mem hfresh, ih hrest hnames (by omega), entriesFrom, List.append_assoc,
      List.singleton_append]
    rw [Entries.keys_append, List.append_assoc]
    exact hnew

/-! ### The end of an archive -/

theorem endRecord?_of_lt {record : Nat} (count : Nat) (hsize : bytes.size = record + 22)
    (hsignature : hasSignature bytes record endSignature = true)
    (hcomment : number bytes (record + 20) 2 = 0) (hlt : record < count) :
    endRecord? bytes count = some record := by
  induction count with
  | zero => omega
  | succ count ih =>
    rw [endRecord?]
    rcases Nat.lt_succ_iff_lt_or_eq.1 hlt with hlt | rfl
    · have hpast : ¬ count + 22 ≤ bytes.size := by omega
      simp [hpast, ih hlt]
    · simp [hsignature, hcomment, hsize]

/-- **A packed archive is opened.** -/
theorem open?_pack (h : Packable parts) : open? (pack parts) = some (packed parts) := by
  have hbytes := toList_pack parts
  set body := parts.flatMap partBytes with hbody
  set directory := directoryBytes 0 parts with hdirectory
  have hend : StandsAt (pack parts) (body.length + directory.length)
      (fieldBytes (endFields parts)) := by
    rw [← List.length_append]
    refine standsAt_of_eq [] ?_
    rw [hbytes, List.append_nil, List.append_assoc]
  have hsizes : (endFields parts).map Prod.snd = [4, 2, 2, 2, 2, 4, 4, 2] := rfl
  have hlength : (fieldBytes (endFields parts)).length = 22 := by
    rw [length_fieldBytes, hsizes]
    rfl
  have hsize : (pack parts).size = body.length + directory.length + 22 := by
    have hsize : (pack parts).data.toList.length = (pack parts).size := rfl
    rw [← hsize, hbytes, List.length_append, List.length_append, hlength, Nat.add_assoc]
  have hcomment : number (pack parts) (body.length + directory.length + 20) 2 = 0 :=
    number_field 7 hend hsizes rfl rfl (by decide)
  have hcount : number (pack parts) (body.length + directory.length + 10) 2 = parts.length :=
    number_field 4 hend hsizes rfl rfl h.count
  have hdirectorySize :
      number (pack parts) (body.length + directory.length + 12) 4 = directory.length :=
    number_field 5 hend hsizes rfl rfl h.length_directory
  have hbodySize : number (pack parts) (body.length + directory.length + 16) 4 = body.length :=
    number_field 6 hend hsizes rfl rfl h.length_body
  have hsignature : hasSignature (pack parts) (body.length + directory.length) endSignature = true :=
    hasSignature_of_standsAt hend (by decide)
  have hrecord := endRecord?_of_lt (pack parts).size hsize hsignature hcomment (by omega)
  have hentries : readEntries? (pack parts) 0 parts.length body.length [] =
      some (entriesFrom 0 parts) := by
    have hat : StandsAt (pack parts) body.length directory := standsAt_of_eq _ (by
      rw [hbytes, List.append_assoc])
    refine (readEntries?_directory hat h.names (by rw [Nat.zero_add]; exact h.length_body) ?_).trans rfl
    exact List.Nodup.of_map _ (by simpa [List.map_map, Function.comp_def] using h.nodup)
  have hshift : body.length + directory.length - (directory.length + body.length) = 0 := by omega
  rw [open?, hrecord]
  simp only [Option.bind_eq_bind, Option.bind_some, hcount, hdirectorySize, hbodySize, hshift,
    ite_self, Nat.zero_add, hentries]
  rfl

/-! ### Parts -/

/-- **A part is read with the content that it was packed with.** -/
theorem content?_packed (hpart : StandsAt bytes offset (partBytes part))
    (hname : part.1.utf8ByteSize < 256 ^ 2) (entries : Entries ArchiveEntry) :
    content? ⟨bytes, entries⟩ ⟨0x800, 0, (checksum part.2).toNat, part.2.size, offset⟩ =
      some ⟨part.2, true⟩ := by
  have hfields := StandsAt.left hpart
  have hsizes : ((partSignature, 4) :: partFields part.1 part.2).map Prod.snd =
      [4, 2, 2, 2, 2, 2, 4, 4, 4, 2, 2] := rfl
  have hnameSize : number bytes (offset + 26) 2 = part.1.utf8ByteSize :=
    number_field 9 hfields hsizes rfl rfl hname
  have hextra : number bytes (offset + 28) 2 = 0 :=
    number_field 10 hfields hsizes rfl rfl (by decide)
  have hsignature : hasSignature bytes offset partSignature = true :=
    hasSignature_of_standsAt hfields (by decide)
  have hcontent : bytes.extract (offset + 30 + part.1.utf8ByteSize)
      (offset + 30 + part.1.utf8ByteSize + part.2.size) = part.2 := by
    have hat := hpart.right.right
    rw [length_fieldBytes, hsizes, length_toUTF8] at hat
    exact ByteArray.ext (Array.toList_inj.1 (extract_of_standsAt hat))
  simp [content?, hsignature, hnameSize, hextra, hcontent]

theorem mem_entriesFrom {offset : Nat} {before : List UInt8} (hpart : part ∈ parts)
    (hbytes : before ++ parts.flatMap partBytes <+: bytes.data.toList)
    (hbefore : before.length = offset) :
    ∃ place, StandsAt bytes place (partBytes part) ∧
      (part.1, ⟨0x800, 0, (checksum part.2).toNat, part.2.size, place⟩) ∈
        entriesFrom offset parts := by
  induction parts generalizing offset before with
  | nil => cases hpart
  | cons first rest ih =>
    rw [List.flatMap_cons, ← List.append_assoc] at hbytes
    rcases List.mem_cons.1 hpart with rfl | hpart
    · refine ⟨offset, ?_, List.mem_cons_self⟩
      obtain ⟨after, hafter⟩ := hbytes
      rw [← hbefore]
      refine standsAt_of_eq (rest.flatMap partBytes ++ after) ?_
      rw [← hafter, List.append_assoc]
    · obtain ⟨place, hplace, hmem⟩ := ih hpart hbytes (by rw [List.length_append, hbefore])
      exact ⟨place, hplace, List.mem_cons_of_mem _ hmem⟩

theorem keys_entriesFrom (offset : Nat) (parts : List (String × ByteArray)) :
    (entriesFrom offset parts).keys = parts.map Prod.fst := by
  induction parts generalizing offset with
  | nil => rfl
  | cons part rest ih => rw [entriesFrom, Entries.keys_cons, ih, List.map_cons]

theorem map_entriesFrom (offset : Nat) (parts : List (String × ByteArray)) :
    ((entriesFrom offset parts).map fun entry => folded entry.1) =
      parts.map fun part => folded part.1 := by
  have hkeys := congrArg (List.map folded) (keys_entriesFrom offset parts)
  rwa [Entries.keys, List.map_map, List.map_map] at hkeys

/-- **The events of a part are those of its content.** -/
theorem events?_packed (h : Packable parts) (hpart : part ∈ parts) :
    (packed parts).events? part.1 = .ok (some (Markup.read part.2.toList true)) := by
  obtain ⟨place, hplace, hmem⟩ := @mem_entriesFrom (pack parts) parts part 0 [] hpart
    ⟨_, (toList_pack parts).symm⟩ rfl
  have hfound : (packed parts).find? part.1 =
      some ⟨0x800, 0, (checksum part.2).toNat, part.2.size, place⟩ := by
    have hsome : ((packed parts).entries.find? fun entry =>
        folded entry.1 == folded part.1).isSome = true := by
      rw [List.find?_isSome]
      exact ⟨_, hmem, beq_self_eq_true _⟩
    obtain ⟨entry, hentry⟩ := Option.isSome_iff_exists.1 hsome
    have hname := List.find?_some hentry
    rw [beq_iff_eq] at hname
    have hnodup := h.nodup
    rw [← map_entriesFrom 0] at hnodup
    have hsame := List.inj_on_of_nodup_map hnodup (List.mem_of_find?_eq_some hentry) hmem hname
    rw [find?, hentry, hsame]
    rfl
  rw [events?, hfound]
  simp only [packed, content?_packed hplace (h.names part hpart)]

/-- There are no events of a part that was not packed. -/
theorem events?_packed_eq_none {name : String}
    (h : folded name ∉ parts.map fun part => folded part.1) :
    (packed parts).events? name = .ok none := by
  have hnone : (packed parts).find? name = none := by
    rw [find?, Option.map_eq_none_iff, List.find?_eq_none]
    intro entry hentry heq
    rw [← map_entriesFrom 0] at h
    exact h (List.mem_map.2 ⟨entry, hentry, beq_iff_eq.1 heq⟩)
  rw [events?, hnone]

end TableExport.Archive
