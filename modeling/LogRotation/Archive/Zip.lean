/-
  Archives of named contents.

    archive    =  entry* directory end
    entry      =  header name blocks [ checksum and sizes ]
    directory  =  for each entry its name, its sizes, and where it begins
    end        =  how many entries there are, and where the directory begins

  Reading starts at the end, goes to the directory, and from there to the entries.  Writing makes
  archives of one entry; its header is written before its content is known, so that checksum and
  sizes follow the blocks.  Main statements: `decode?_encode`, for a name and an archive whose
  lengths fit into their fields, and `decode?_body?`, for every content that is not refused as too
  large.
-/
import LogRotation.Archive.Checksum
import LogRotation.Archive.Deflate

namespace LogRotation.Archive

/-- An entry of an archive that was read. -/
structure Zip.Entry where
  name : String
  deflated : Bool
  content : Bytes
  deriving DecidableEq, Repr

namespace Zip

/-! ## Writing -/

/-- The properties of an entry: its sizes follow the blocks, and its name is Unicode. -/
def flags : Nat := 0x0808

/-- The header of an entry whose content is still to come. -/
def header (name : Bytes) : Bytes :=
  [0x50, 0x4b, 3, 4] ++ (Bytes.ofNat16 20 ++ (Bytes.ofNat16 flags ++ (Bytes.ofNat16 8 ++
    (Bytes.ofNat32 0x210000 ++ (List.replicate 12 0 ++ (Bytes.ofNat16 name.length ++
      (Bytes.ofNat16 0 ++ name)))))))

/-- Checksum and sizes. -/
def measures (blocks content : Bytes) : Bytes :=
  Bytes.ofNat32 (checksum content) ++ (Bytes.ofNat32 blocks.length ++ Bytes.ofNat32 content.length)

/-- The directory of one entry, which begins the archive. -/
def directory (name blocks content : Bytes) : Bytes :=
  [0x50, 0x4b, 1, 2] ++ (Bytes.ofNat16 20 ++ (Bytes.ofNat16 20 ++ (Bytes.ofNat16 flags ++
    (Bytes.ofNat16 8 ++ (Bytes.ofNat32 0x210000 ++ (measures blocks content ++
      (Bytes.ofNat16 name.length ++ (List.replicate 16 0 ++ name))))))))

/-- The end of an archive of one entry. -/
def ending (size start : Nat) : Bytes :=
  [0x50, 0x4b, 5, 6] ++ (Bytes.ofNat32 0 ++ (Bytes.ofNat16 1 ++ (Bytes.ofNat16 1 ++
    (Bytes.ofNat32 size ++ (Bytes.ofNat32 start ++ Bytes.ofNat16 0)))))

/-- All that follows the header of the one entry. -/
def body (name content : Bytes) : Bytes :=
  let blocks := deflate content
  let data := blocks ++ ([0x50, 0x4b, 7, 8] ++ measures blocks content)
  let listed := directory name blocks content
  data ++ (listed ++ ending listed.length ((header name).length + data.length))

/-- The least count that does not fit into a field of four bytes. -/
def sizeLimit : Nat := 4294967296

/-- The least length of a name that does not fit into its field. -/
def nameLimit : Nat := 65536

/-- All that follows the header, unless the archive would outgrow the fields for its sizes. -/
def body? (name content : Bytes) : Option Bytes :=
  let rest := body name content
  if name.length < nameLimit ∧ (header name).length + rest.length < sizeLimit then some rest else none

/-- Writes an archive of one entry. -/
def encode (name content : Bytes) : Bytes := header name ++ body name content

/-! ## Reading -/

/-- The number of so many bytes at a place. -/
def field (bytes : Bytes) (start count : Nat) : Nat := Bytes.toNat ((bytes.drop start).take count)

/-- The place of the end: the last one where an end can be. -/
def ending? (bytes : Bytes) : Nat → Option Nat
  | 0 => none
  | n + 1 => if (bytes.drop n).take 4 = [0x50, 0x4b, 5, 6] ∧ n + 22 ≤ bytes.length then some n
    else ending? bytes n

/-- Reads the content of an entry from its header on. -/
def content? (bytes : Bytes) (method size : Nat) : Option Bytes :=
  if bytes.take 4 ≠ [0x50, 0x4b, 3, 4] then none
  else
    let data := (bytes.drop (30 + field bytes 26 2 + field bytes 28 2)).take size
    if method = 8 then (inflate? data).map Prod.fst else if method = 0 then some data else none

/-- Reads the entries that a directory lists, from the place where it goes on. -/
def entries? (archive : Bytes) : Nat → Bytes → Option (List Entry)
  | 0, _ => some []
  | n + 1, listed =>
    if listed.take 4 ≠ [0x50, 0x4b, 1, 2] then none
    else do
      let name ← Bytes.text? ((listed.drop 46).take (field listed 28 2))
      let method := field listed 10 2
      let content ← content? (archive.drop (field listed 42 4)) method (field listed 20 4)
      if field listed 16 4 ≠ checksum content then none
      else
        let next := 46 + field listed 28 2 + field listed 30 2 + field listed 32 2
        let rest ← entries? archive n (listed.drop next)
        return ⟨name, method == 8, content⟩ :: rest

/-- Reads an archive. -/
def decode? (archive : Bytes) : Option (List Entry) := do
  let last ← ending? archive (archive.length - 21)
  let tail := archive.drop last
  entries? archive (field tail 10 2) (archive.drop (field tail 16 4))

/-! ## Laws -/

theorem length_header (name : Bytes) : (header name).length = 30 + name.length := by
  simp [header, Bytes.ofNat16, Bytes.ofNat32]; omega

theorem length_ending (size start : Nat) : (ending size start).length = 22 := rfl

theorem ending?_append_ending (bytes : Bytes) (size start : Nat) :
    ending? (bytes ++ ending size start) ((bytes ++ ending size start).length - 21) =
      some bytes.length := by
  have h : (bytes ++ ending size start).length - 21 = bytes.length + 1 := by
    simp [length_ending]
  rw [h, ending?, if_pos]
  exact ⟨by simp [ending], by simp [length_ending]⟩

theorem field_ending_count (size start : Nat) : field (ending size start) 10 2 = 1 := by
  rfl

theorem field_ending_start (size start : Nat) :
    field (ending size start) 16 4 = start % 4294967296 := by
  have := Bytes.toNat_ofNat32 start
  simpa [field, ending, Bytes.ofNat16, Bytes.ofNat32] using this

/-- The fields of a directory are read where they were written. -/
theorem fields_directory (name blocks content rest : Bytes) :
    (directory name blocks content ++ rest).take 4 = [0x50, 0x4b, 1, 2] ∧
    field (directory name blocks content ++ rest) 10 2 = 8 ∧
    field (directory name blocks content ++ rest) 16 4 = checksum content ∧
    field (directory name blocks content ++ rest) 20 4 = blocks.length % 4294967296 ∧
    field (directory name blocks content ++ rest) 28 2 = name.length % 65536 ∧
    field (directory name blocks content ++ rest) 42 4 = 0 ∧
    (directory name blocks content ++ rest).drop 46 = name ++ rest := by
  have h1 : Bytes.toNat (Bytes.ofNat32 (checksum content)) = checksum content := by
    rw [Bytes.toNat_ofNat32]; exact Nat.mod_eq_of_lt (checksum_lt content)
  have h2 := Bytes.toNat_ofNat32 blocks.length
  have h3 := Bytes.toNat_ofNat16 name.length
  refine ⟨rfl, ?_, ?_, ?_, ?_, ?_, ?_⟩
  · rfl
  · simpa [field, directory, measures, Bytes.ofNat16, Bytes.ofNat32] using h1
  · simpa [field, directory, measures, Bytes.ofNat16, Bytes.ofNat32] using h2
  · simpa [field, directory, measures, Bytes.ofNat16, Bytes.ofNat32] using h3
  · simp [field, directory, measures, Bytes.ofNat16, Bytes.ofNat32, Bytes.toNat]
  · simp [directory, measures, Bytes.ofNat16, Bytes.ofNat32]

theorem content?_header (name blocks content rest : Bytes) (small : name.length < 65536)
    (h : inflate? blocks = some (content, [])) :
    content? (header name ++ (blocks ++ rest)) 8 blocks.length = some content := by
  have h1 : field (header name ++ (blocks ++ rest)) 26 2 = name.length := by
    have := Bytes.toNat_ofNat16 name.length
    rw [Nat.mod_eq_of_lt small] at this
    simpa [field, header, Bytes.ofNat16, Bytes.ofNat32] using this
  have h2 : field (header name ++ (blocks ++ rest)) 28 2 = 0 := by
    simp [field, header, Bytes.ofNat16, Bytes.ofNat32, Bytes.toNat]
  have h3 : (header name ++ (blocks ++ rest)).take 4 = [0x50, 0x4b, 3, 4] := rfl
  have h4 : (header name ++ (blocks ++ rest)).drop (30 + name.length) = blocks ++ rest := by
    rw [← length_header name, List.drop_left]
  simp [content?, h1, h2, h3, h4, h]

theorem decode?_encode (name : String) (content : Bytes)
    (shortName : (Bytes.ofText name).length < nameLimit)
    (small : (encode (Bytes.ofText name) content).length < sizeLimit) :
    decode? (encode (Bytes.ofText name) content) = some [⟨name, true, content⟩] := by
  unfold nameLimit at shortName
  unfold sizeLimit at small
  generalize hn : Bytes.ofText name = n at *
  generalize hb : deflate content = blocks
  have inflated : inflate? blocks = some (content, []) := by
    have := inflate_deflate content []
    rwa [List.append_nil, hb] at this
  obtain ⟨data, hd⟩ : ∃ data, data = blocks ++ ([0x50, 0x4b, 7, 8] ++ measures blocks content) :=
    ⟨_, rfl⟩
  obtain ⟨listed, hl⟩ : ∃ listed, listed = directory n blocks content := ⟨_, rfl⟩
  obtain ⟨last, he⟩ : ∃ last, last = ending listed.length ((header n).length + data.length) := ⟨_, rfl⟩
  have whole : encode n content = (header n ++ data ++ listed) ++ last := by
    simp [encode, body, hb, hd, hl, he]
  have whole2 : encode n content = (header n ++ data) ++ (listed ++ last) := by
    simp [whole]
  have whole3 : encode n content = header n ++ (blocks ++ ([0x50, 0x4b, 7, 8] ++
      measures blocks content ++ (listed ++ last))) := by
    simp [whole, hd]
  have len : (header n).length + data.length < 4294967296 := by
    rw [whole2] at small; simp only [List.length_append] at small; omega
  have lenBlocks : blocks.length < 4294967296 := by
    rw [whole3] at small; simp only [List.length_append] at small; omega
  have hlast : ending? (encode n content) ((encode n content).length - 21) =
      some (header n ++ data ++ listed).length := by
    rw [whole, he]; exact ending?_append_ending _ _ _
  have htail : (encode n content).drop (header n ++ data ++ listed).length = last := by
    rw [whole, List.drop_left]
  have hdir : (encode n content).drop ((header n).length + data.length) = listed ++ last := by
    rw [whole2, ← List.length_append, List.drop_left]
  obtain ⟨d0, d10, d16, d20, d28, d42, d46⟩ := fields_directory n blocks content last
  rw [← hl] at d0 d10 d16 d20 d28 d42 d46
  rw [Nat.mod_eq_of_lt shortName] at d28
  rw [Nat.mod_eq_of_lt lenBlocks] at d20
  have hname : Bytes.text? n = some name := by rw [← hn]; exact Bytes.text?_ofText name
  have hcontent := content?_header n blocks content
    ([0x50, 0x4b, 7, 8] ++ measures blocks content ++ (listed ++ last)) shortName inflated
  rw [← whole3] at hcontent
  simp only [decode?, hlast, htail, Option.bind_eq_bind, Option.bind_some]
  have f1 : field last 10 2 = 1 := by rw [he]; exact field_ending_count _ _
  have f2 : field last 16 4 = (header n).length + data.length := by
    rw [he, field_ending_start, Nat.mod_eq_of_lt len]
  rw [f1, f2, hdir]
  simp [entries?, d0, d10, d16, d20, d28, d42, d46, hname, hcontent]

/-- What was written around a content, where it fits, is read back. -/
theorem decode?_body? {name : String} {content rest : Bytes}
    (h : body? (Bytes.ofText name) content = some rest) :
    decode? (header (Bytes.ofText name) ++ rest) = some [⟨name, true, content⟩] := by
  unfold body? at h
  dsimp only at h
  split at h
  · rename_i fits
    cases h
    exact decode?_encode name content fits.1 (by rw [encode, List.length_append]; exact fits.2)
  · cases h

end Zip

end LogRotation.Archive
