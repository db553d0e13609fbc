import VibeKernel.Lib.Writes
import VibeKernel.Fs.Directory

/-!
# Writing a file into an image

`inject_file.py` puts a file into a FAT16 image from the outside: it takes the first free entry of
the root directory and the first free clusters, links these in every copy of the allocation table,
fills them with the data and writes the directory entry. It reads the image only before it writes to
it, so what it does is a list of writes computed from the image it finds.

An image is a function from byte positions to bytes: reads never come back short. Names are the
bytes of an ASCII string.
-/

namespace VibeKernel

open Verif

/-- `struct.unpack("<H", …)` at a position. -/
def unpackH (img : ℕ → UInt8) (pos : ℕ) : ℕ := (img pos).toNat + 256 * (img (pos + 1)).toNat

/-- `struct.pack("<H", n)`. -/
def packH (n : ℕ) : List UInt8 := [UInt8.ofNat (n % 256), UInt8.ofNat (n / 256)]

/-- `struct.pack("<I", n)`. -/
def packI (n : ℕ) : List UInt8 := packH (n % 65536) ++ packH (n / 65536)

/-- The fields of the boot sector that the script reads. -/
structure InjectGeometry where
  bytesPerSector : ℕ
  sectorsPerCluster : ℕ
  reservedSectors : ℕ
  fats : ℕ
  rootEntries : ℕ
  sectorsPerFat : ℕ

/-- Where the script finds them. -/
def InjectGeometry.read (img : ℕ → UInt8) : InjectGeometry where
  bytesPerSector := unpackH img 11
  sectorsPerCluster := (img 13).toNat
  reservedSectors := unpackH img 14
  fats := (img 16).toNat
  rootEntries := unpackH img 17
  sectorsPerFat := unpackH img 22

namespace InjectGeometry

variable (g : InjectGeometry)

def fatStart : ℕ := g.reservedSectors * g.bytesPerSector

def rootStart : ℕ := g.fatStart + g.fats * g.sectorsPerFat * g.bytesPerSector

def dataStart : ℕ := g.rootStart + g.rootEntries * 32

def clusterSize : ℕ := g.sectorsPerCluster * g.bytesPerSector

/-- `clusters_needed` for `size` bytes. -/
def clustersNeeded (size : ℕ) : ℕ := (size + g.clusterSize - 1) / g.clusterSize

/-- The first free entry of the root directory. -/
def entryIdx (img : ℕ → UInt8) : Option ℕ :=
  (List.range g.rootEntries).find? fun i =>
    img (g.rootStart + 32 * i) = 0x00 ∨ img (g.rootStart + 32 * i) = 0xE5

/-- The loop over the entries of the allocation table, which stops with the last cluster needed. -/
def findClusters (img : ℕ → UInt8) (needed : ℕ) : List ℕ → List ℕ → List ℕ
  | [], found => found
  | i :: is, found =>
    if unpackH img (g.fatStart + 2 * i) = 0 then
      if (found ++ [i]).length = needed then found ++ [i]
      else findClusters img needed is (found ++ [i])
    else findClusters img needed is found

/-- The writes to the copies of the allocation table. -/
def fatWrites (clusters : List ℕ) (needed : ℕ) : List (Write UInt8) :=
  (List.range g.fats).flatMap fun fatIdx =>
    (List.range needed).map fun i =>
      { pos := g.fatStart + fatIdx * g.sectorsPerFat * g.bytesPerSector + clusters.getD i 0 * 2
        data := if i + 1 = needed then packH 0xFFFF else packH (clusters.getD (i + 1) 0) }

/-- The writes to the clusters. -/
def dataWrites (clusters : List ℕ) (needed : ℕ) (data : List UInt8) : List (Write UInt8) :=
  (List.range needed).map fun i =>
    { pos := g.dataStart + (clusters.getD i 0 - 2) * g.sectorsPerCluster * g.bytesPerSector
      data := (data.drop (i * g.clusterSize)).take
        (min (i * g.clusterSize + g.clusterSize) data.length - i * g.clusterSize) }

end InjectGeometry

/-- `s.ljust(n)[:n]`. -/
def ljust (s : List UInt8) (n : ℕ) : List UInt8 := (s ++ List.replicate (n - s.length) 0x20).take n

/-- `name_parts[0]` of the upper-case name. -/
def targetBase (name : List UInt8) : List UInt8 :=
  (name.map toupper).takeWhile fun c => decide (c ≠ 0x2E)

/-- `name_parts[1]` of the upper-case name, empty if there is none. -/
def targetExt (name : List UInt8) : List UInt8 :=
  (((name.map toupper).dropWhile fun c => decide (c ≠ 0x2E)).drop 1).takeWhile
    fun c => decide (c ≠ 0x2E)

/-- The directory entry that the script writes. -/
def injectEntry (name : List UInt8) (first size : ℕ) : List UInt8 :=
  ljust (targetBase name) 8 ++ ljust (targetExt name) 3 ++ [0x20] ++
    List.replicate 10 0 ++ packH 0 ++ packH 0 ++ packH first ++ packI size

/-- `inject`: the image afterwards, unless the script exits with an error. -/
def inject (img : ℕ → UInt8) (data name : List UInt8) : Option (ℕ → UInt8) :=
  let g := InjectGeometry.read img
  let needed := g.clustersNeeded data.length
  match g.entryIdx img with
  | none => none
  | some entryIdx =>
    let clusters := g.findClusters img needed (List.range' 2 65534) []
    if clusters.length < needed then none
    else
      match clusters with
      | [] => none
      | first :: _ =>
        some (applyWrites img (g.fatWrites clusters needed ++ g.dataWrites clusters needed data ++
          [{ pos := g.rootStart + entryIdx * 32, data := injectEntry name first data.length }]))

end VibeKernel
