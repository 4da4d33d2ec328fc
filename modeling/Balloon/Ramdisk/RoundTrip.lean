import Balloon.Ramdisk.Builder

/-!
Owns the round trip from build_ramdisk.c to ramfs.c: what the kernel's packed
headers show of an image the host wrote. Because the records drift by three
bytes and the fields behind the name by three more, only the image without
files survives.
-/

namespace Balloon.Ramdisk

open Balloon.Foundation
open Balloon.Libc

/-- The image lies at `start`. -/
structure Loaded (image : List UInt8) (m : Memory) (start : Nat) : Prop where
  fits : start + image.length ≤ 2 ^ 32
  bytes : ∀ k (inside : k < image.length), m (start + k) = image[k]

/-- Header `i` of the table at `start`, as `ramfs_mount` reads it, shows the
file: its name, its length, and its contents at the adjusted offset. -/
structure Shows (m : Memory) (start i : Nat) (file : HostFile) : Prop where
  name : CString m (nameOf (fileHeader start i)) file.name.length ∧
    ∀ k (inside : k < file.name.length), m (nameOf (fileHeader start i) + k) = file.name[k]
  length : lengthOf m (fileHeader start i) = file.contents.length
  contents : ∀ k (inside : k < file.contents.length),
    m (wrap32 (offsetOf m (fileHeader start i) + start + k)) = file.contents[k]

/-- Whatever the stack of the host, the address of the image and the memory
around it, the kernel finds the files the host packed. -/
def RoundTrips (files : List HostFile) : Prop :=
  ∀ garbage m start, Loaded (image files garbage) m start →
    m.read32 start = files.length ∧
      ∀ i (inside : i < files.length), Shows m start i files[i]

/-! ### The bytes of an image -/

variable {files : List HostFile} {garbage m : Memory}

theorem image_length (files : List HostFile) (garbage : Memory) :
    4868 ≤ (image files garbage).length := by
  simp only [image, sizeofHostHeader, wordBytes, List.length_append, List.length_cons,
    List.length_nil, List.length_map, List.length_range]
  omega

/-- The records stand behind the word `nheaders`. -/
theorem image_header (files : List HostFile) (garbage : Memory) {a : Nat} (inside : a < 4864) :
    (image files garbage)[4 + a]? = some ((addEntries files garbage).headers a) := by
  have words : (wordBytes (addEntries files garbage).nheaders).length = 4 := rfl
  simp only [image]
  rw [List.getElem?_append_left (by simp [words, sizeofHostHeader]; omega),
    List.getElem?_append_right (by omega), words, Nat.add_sub_cancel_left, List.getElem?_map,
    List.getElem?_range (by simp only [sizeofHostHeader]; omega), Option.map_some]

theorem Loaded.header {start : Nat} (loaded : Loaded (image files garbage) m start) {a : Nat}
    (inside : a < 4864) : m (start + (4 + a)) = (addEntries files garbage).headers a := by
  have length := image_length files garbage
  rw [loaded.bytes (4 + a) (by omega)]
  apply Option.some.inj
  rw [← image_header files garbage inside, List.getElem?_eq_getElem]

theorem Loaded.start_le {start : Nat} (loaded : Loaded (image files garbage) m start) :
    start + 4868 ≤ 2 ^ 32 := by
  have length := image_length files garbage
  have fits := loaded.fits
  omega

/-- The number of files is where the kernel looks for it. -/
theorem Loaded.nfiles {start : Nat} (loaded : Loaded (image files garbage) m start) :
    m.read32 start = (addEntries files garbage).nheaders % 2 ^ 32 := by
  have length := image_length files garbage
  have word : ∀ k, k < 4 →
      some (m (start + k)) = (wordBytes (addEntries files garbage).nheaders)[k]? := by
    intro k low
    rw [loaded.bytes k (by omega), ← List.getElem?_eq_getElem, image,
      List.getElem?_append_left (by simp [wordBytes, sizeofHostHeader]; omega),
      List.getElem?_append_left (by simpa [wordBytes] using low)]
  have b0 := word 0 (by decide)
  have b1 := word 1 (by decide)
  have b2 := word 2 (by decide)
  have b3 := word 3 (by decide)
  simp only [wordBytes, List.getElem?_cons_zero, List.getElem?_cons_succ, Option.some.injEq,
    Nat.add_zero] at b0 b1 b2 b3
  simp only [Memory.read32, b0, b1, b2, b3, UInt8.toNat_ofNat']
  omega

/-- Memory that holds the image at address 0 and `beyond` behind it. -/
def imageMemory (image : List UInt8) (beyond : UInt8) : Memory := fun a => image.getD a beyond

theorem loaded_imageMemory {image : List UInt8} (beyond : UInt8) (fits : image.length ≤ 2 ^ 32) :
    Loaded image (imageMemory image beyond) 0 where
  fits := by omega
  bytes := fun k inside => by
    rw [Nat.zero_add, imageMemory, List.getD_eq_getElem?_getD, List.getElem?_eq_getElem inside,
      Option.getD_some]

theorem imageMemory_beyond {image : List UInt8} (beyond : UInt8) {a : Nat}
    (outside : image.length ≤ a) : imageMemory image beyond a = beyond := by
  rw [imageMemory, List.getD_eq_getElem?_getD, List.getElem?_eq_none outside, Option.getD_none]

/-! ### Two files or more -/

/-- The packed name of header 1 starts three bytes before the name of record 1, so
where it should end it shows one of that name's characters. -/
theorem second_name_lost {start : Nat} (named : ∀ file ∈ files, file.Named)
    (two : 1 < files.length) (loaded : Loaded (image files garbage) m start) :
    ¬ Shows m start 1 files[1] := by
  intro shows
  obtain ⟨-, recorded, -⟩ := addEntries_spec named ⟨garbage, 0, sizeofHostHeader * 64 + 4⟩
  have second := recorded 1 two
  have namedSecond := named files[1] (List.getElem_mem two)
  have long := namedSecond.long
  have short := namedSecond.short
  have startLe := loaded.start_le
  have packed : nameOf (fileHeader start 1) = start + 78 := by
    simp only [nameOf, fileHeader, sizeofHeader, sizeofFileHeader, wrap32]
    omega
  have nul := shows.name.1.nul
  rw [packed] at nul
  have last := second.name (files[1].name.length - 3) (by omega)
  have here : m (start + 78 + files[1].name.length) = files[1].name[files[1].name.length - 3] := by
    rw [← last, show start + 78 + files[1].name.length =
      start + (4 + (74 + files[1].name.length)) by omega, loaded.header (by omega)]
    exact congrArg _ (by simp only []; omega)
  exact namedSecond.chars _ (List.getElem_mem _) (here.symm.trans nul)

/-! ### One file -/

/-- The packed length of header 0 takes three bytes from the offset, so only one
length shows as it is. -/
theorem only_length {start : Nat} {file : HostFile} (named : file.Named)
    (loaded : Loaded (image [file] garbage) m start)
    (length : lengthOf m (fileHeader start 0) = file.contents.length) :
    file.contents.length = 0x13000013 ∧
      0x04000000 ≤ offsetOf m (fileHeader start 0) ∧
      offsetOf m (fileHeader start 0) < 0x05000000 := by
  obtain ⟨-, recorded, offset, -⟩ := addEntry_spec ⟨garbage, 0, sizeofHostHeader * 64 + 4⟩ named
  have recordLength := recorded.length
  have startLe := loaded.start_le
  have isHeader : fileHeader start 0 = start + 4 := by
    simp only [fileHeader, sizeofHeader, sizeofFileHeader, wrap32]
    omega
  generalize atHeaders : (addEntry ⟨garbage, 0, sizeofHostHeader * 64 + 4⟩ file).headers = headers
    at offset recordLength
  have word : ∀ o, o + 4 ≤ 76 → (addressed m).read32 (start + 4 + o) = headers.read32 o := by
    intro o low
    refine Memory.read32_of_bytes fun k bound => ?_
    rw [addressed, wrap32_of_lt (by omega), show start + 4 + o + k = start + (4 + (o + k)) by omega,
      loaded.header (by omega), ← atHeaders]
    rfl
  have lengthLt := lengthOf_lt m (fileHeader start 0)
  have packedLength : lengthOf m (fileHeader start 0) = headers.read32 69 := by
    rw [lengthOf, isHeader, word 69 (by omega)]
  have packedOffset : offsetOf m (fileHeader start 0) = headers.read32 65 := by
    rw [offsetOf, isHeader, word 65 (by omega)]
  rw [packedLength] at length lengthLt
  rw [← length, Nat.mod_eq_of_lt lengthLt] at recordLength
  rw [packedOffset, ← length]
  have offsetWord : headers.read32 68 = 4868 := offset
  have lengthWord : headers.read32 72 = headers.read32 69 := recordLength
  have bytes : ∀ o, (headers o).toNat < 256 := fun o => (headers o).toNat_lt
  have b65 := bytes 65
  have b66 := bytes 66
  have b67 := bytes 67
  have b68 := bytes 68
  have b69 := bytes 69
  have b70 := bytes 70
  have b71 := bytes 71
  have b72 := bytes 72
  have b73 := bytes 73
  have b74 := bytes 74
  have b75 := bytes 75
  simp only [Memory.read32, Nat.reduceAdd] at offsetWord lengthWord ⊢
  omega

theorem only_image_length (garbage : Memory) {file : HostFile} (named : file.Named) :
    (image [file] garbage).length ≤ 4868 + file.contents.length := by
  obtain ⟨count, recorded, -⟩ := addEntry_spec ⟨garbage, 0, sizeofHostHeader * 64 + 4⟩ named
  have nheaders : (addEntries [file] garbage).nheaders = 1 := count
  have length : (addEntries [file] garbage).headers.read32 (sizeofHostHeader * 0 + 72) =
      file.contents.length % 2 ^ 32 := recorded.length
  have written : (hostContents [file] (addEntries [file] garbage).headers 0).length ≤
      file.contents.length := by
    rw [hostContents, length, List.length_take]
    exact (Nat.min_le_left _ _).trans (Nat.mod_le _ _)
  simp only [image, nheaders, sizeofHostHeader, wordBytes, List.length_append, List.length_cons,
    List.length_nil, List.length_map, List.length_range, List.range_one, List.flatMap_cons,
    List.flatMap_nil, List.append_nil]
  omega

/-- With one file of that length, the last byte is looked for behind the image. -/
theorem only_contents_lost {file : HostFile} (named : file.Named)
    (fits : ∀ garbage, (image [file] garbage).length ≤ 2 ^ 32) : ¬ RoundTrips [file] := by
  intro roundTrips
  let beyond : UInt8 := if file.contents.getD (file.contents.length - 1) 0 = 0 then 1 else 0
  have loaded := loaded_imageMemory beyond (fits fun _ => 0)
  have shown : Shows (imageMemory (image [file] fun _ => 0) beyond) 0 0 file :=
    (roundTrips _ _ 0 loaded).2 0 Nat.one_pos
  obtain ⟨length, above, below⟩ := only_length named loaded shown.length
  have imageLength := only_image_length (fun _ => 0) named
  have inside : file.contents.length - 1 < file.contents.length := by omega
  have last := shown.contents _ inside
  rw [Nat.add_zero, wrap32_of_lt (by omega), imageMemory_beyond _ (by omega)] at last
  have byte : file.contents.getD (file.contents.length - 1) 0 =
      file.contents[file.contents.length - 1] := by
    rw [List.getD_eq_getElem?_getD, List.getElem?_eq_getElem inside, Option.getD_some]
  rw [← byte] at last
  by_cases zero : file.contents.getD (file.contents.length - 1) 0 = 0
  · simp only [beyond, zero, if_true] at last
    exact absurd last (by decide)
  · simp only [beyond, zero, if_false] at last
    exact zero last.symm

/-! ### The round trip -/

/-- No image with files survives the trip. -/
theorem roundTrips_iff_no_files (count : files.length ≤ 64) (named : ∀ file ∈ files, file.Named)
    (fits : ∀ garbage, (image files garbage).length ≤ 2 ^ 32) :
    RoundTrips files ↔ files = [] := by
  constructor
  · intro roundTrips
    rcases files with _ | ⟨file, _ | ⟨second, rest⟩⟩
    · rfl
    · exact absurd roundTrips (only_contents_lost (named file List.mem_cons_self) fits)
    · have loaded := loaded_imageMemory 0 (fits fun _ => 0)
      have two : 1 < (file :: second :: rest).length := by simp
      exact absurd ((roundTrips _ _ 0 loaded).2 1 two) (second_name_lost named two loaded)
  · rintro rfl garbage m start loaded
    exact ⟨loaded.nfiles, nofun⟩

/-- An empty file called `"abc"`. -/
def emptyFile : HostFile := ⟨[0x61, 0x62, 0x63], []⟩

theorem emptyFile_named : emptyFile.Named := ⟨by decide, by decide, by simp [emptyFile]⟩

theorem emptyFile_fits (garbage : Memory) : (image [emptyFile] garbage).length ≤ 2 ^ 32 := by
  have bound := only_image_length garbage emptyFile_named
  have empty : emptyFile.contents.length = 0 := rfl
  omega

/-- `roundTrips_iff_no_files` for one empty file. -/
theorem roundTrips_iff_no_files_empty : RoundTrips [emptyFile] ↔ [emptyFile] = [] :=
  roundTrips_iff_no_files (by decide)
    (fun file member => by rw [List.mem_singleton.mp member]; exact emptyFile_named)
    emptyFile_fits

/-- The image of one empty file shows a length that is not zero. -/
theorem empty_file_lost : ¬ ∀ files : List HostFile, files.length ≤ 64 →
    (∀ file ∈ files, file.Named) → (∀ garbage, (image files garbage).length ≤ 2 ^ 32) →
    RoundTrips files := by
  intro always
  refine only_contents_lost emptyFile_named emptyFile_fits (always [emptyFile] (by decide) ?_
    emptyFile_fits)
  intro file member
  rw [List.mem_singleton.mp member]
  exact emptyFile_named

end Balloon.Ramdisk
