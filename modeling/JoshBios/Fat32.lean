import JoshBios.Partition

/-! # FAT32 (`boot/core/fat32.c`)

The file system is read-only here. The device a `josh_fat32_t` points to is passed beside it, and a path is
the list of the bytes before its NUL. A read delivers its bytes as a list: what it has written to the caller's
buffer so far, also when it then fails. -/

namespace JoshBios

structure Fat32 where
  partitionLba : UInt64
  partitionSectors : UInt64
  fatLba : UInt32
  dataLba : UInt32
  sectorsPerFat : UInt32
  clusterCount : UInt32
  rootCluster : UInt32
  sectorsPerCluster : UInt8
  fatCount : UInt8
deriving DecidableEq, Repr

namespace Fat32

-- FAT32_*, FAT_ATTR_*
def minClusters : UInt32 := 65525
def eocMin : UInt32 := 0x0ffffff8
def badCluster : UInt32 := 0x0ffffff7
def clusterMask : UInt32 := 0x0fffffff
def attrDirectory : UInt8 := 0x10
def attrVolume : UInt8 := 0x08
def attrLfn : UInt8 := 0x0f

inductive Status where
  | ok | ioError | notFat32 | corrupt | unsupported | notFound | notDirectory | badPath | bufferTooSmall
deriving DecidableEq, Repr

structure File where
  firstCluster : UInt32
  size : UInt32
  attributes : UInt8
deriving DecidableEq, Repr

def powerOfTwoU8 (value : UInt8) : Bool := value ≠ 0 && value &&& (value - 1) = 0

def clusterValid (fs : Fat32) (cluster : UInt32) : Bool := cluster ≥ 2 && cluster < fs.clusterCount + 2

def clusterLba (fs : Fat32) (cluster : UInt32) : Except Status UInt64 :=
  if !clusterValid fs cluster then .error .corrupt else
  let relative := fs.dataLba.toUInt64 + (cluster - 2).toUInt64 * fs.sectorsPerCluster.toUInt64
  if relative ≥ fs.partitionSectors || fs.sectorsPerCluster.toUInt64 > fs.partitionSectors - relative then
    .error .corrupt
  else .ok (fs.partitionLba + relative)

def nextCluster (device : BlockDevice) (fs : Fat32) (cluster : UInt32) : Except Status UInt32 :=
  if !clusterValid fs cluster then .error .corrupt else
  let fatOffset := cluster.toUInt64 * 4
  let sectorIndex := fatOffset / 512
  let byteOffset := (fatOffset % 512).toUInt32
  if sectorIndex ≥ fs.sectorsPerFat.toUInt64 || byteOffset > 512 - 4 then .error .corrupt else
  match device.blockRead (fs.partitionLba + fs.fatLba.toUInt64 + sectorIndex) 1 with
  | none => .error .ioError
  | some sector =>
    let value := le32 sector byteOffset.toNat &&& clusterMask
    if value = badCluster || value = 0 || value = 1 then .error .corrupt else .ok value

-- "_-$~!#%&()@^`{}"
def punctuation : List UInt8 :=
  [0x5f, 0x2d, 0x24, 0x7e, 0x21, 0x23, 0x25, 0x26, 0x28, 0x29, 0x40, 0x5e, 0x60, 0x7b, 0x7d]

def shortNamePunctuationAllowed (c : UInt8) : Bool := punctuation.contains c

def asciiUpper (c : UInt8) : Option UInt8 :=
  let c := if 0x61 ≤ c && c ≤ 0x7a then c - 0x61 + 0x41 else c
  if (0x41 ≤ c && c ≤ 0x5a) || (0x30 ≤ c && c ≤ 0x39) || shortNamePunctuationAllowed c then some c else none

/-- The position of the only dot, the length when there is none; `none` when there are two. -/
def findDot (segment : List UInt8) : (i dot : Nat) → List UInt8 → Option Nat
  | _, dot, [] => some dot
  | i, dot, c :: cs =>
    if c = 0x2e then if dot ≠ segment.length then none else findDot segment (i + 1) i cs
    else findDot segment (i + 1) dot cs

def shortNameFromSegment (segment : List UInt8) : Except Status (List UInt8) :=
  if segment.length = 0 || segment.length > 12 then .error .badPath else
  match findDot segment 0 segment.length segment with
  | none => .error .badPath
  | some dot =>
    let extLen := if dot = segment.length then 0 else segment.length - dot - 1
    if dot = 0 || dot > 8 || extLen > 3 then .error .badPath else
    match (segment.take dot).mapM asciiUpper, ((segment.drop (dot + 1)).take extLen).mapM asciiUpper with
    | some base, some ext =>
      .ok (base ++ .replicate (8 - base.length) 0x20 ++ ext ++ .replicate (3 - ext.length) 0x20)
    | _, _ => .error .badPath

/-- The entries of one directory sector, `n` of them from `offset` on; `none` when the search goes on. -/
def scanSector (sector : Bytes) (shortName : List UInt8) : (n offset : Nat) → Option (Except Status File)
  | 0, _ => none
  | n + 1, offset =>
    let attributes := sector (offset + 11)
    if sector offset = 0x00 then some (.error .notFound)
    else if sector offset = 0xe5 then scanSector sector shortName n (offset + 32)
    else if attributes = attrLfn || attributes &&& attrVolume ≠ 0 then scanSector sector shortName n (offset + 32)
    else if sector.slice offset 11 ≠ shortName then scanSector sector shortName n (offset + 32)
    else
      let firstCluster := ((le16 sector (offset + 20)).toUInt32 <<< 16) ||| (le16 sector (offset + 26)).toUInt32
      let size := le32 sector (offset + 28)
      if firstCluster < 2 && size ≠ 0 then some (.error .corrupt) else some (.ok { firstCluster, size, attributes })

def scanCluster (device : BlockDevice) (shortName : List UInt8) : (n : Nat) → (lba : UInt64) → Option (Except Status File)
  | 0, _ => none
  | n + 1, lba =>
    match device.blockRead lba 1 with
    | none => some (.error .ioError)
    | some sector =>
      match scanSector sector shortName 16 0 with
      | some result => some result
      | none => scanCluster device shortName n (lba + 1)

/-- The cluster loop of `find_in_directory`, `n` rounds of it. -/
def findInClusters (device : BlockDevice) (fs : Fat32) (shortName : List UInt8) :
    (n : Nat) → (cluster : UInt32) → Except Status File
  | 0, _ => .error .corrupt
  | n + 1, cluster =>
    match clusterLba fs cluster with
    | .error status => .error status
    | .ok baseLba =>
      match scanCluster device shortName fs.sectorsPerCluster.toNat baseLba with
      | some result => result
      | none =>
        match nextCluster device fs cluster with
        | .error status => .error status
        | .ok next =>
          if next ≥ eocMin then .error .notFound else findInClusters device fs shortName n next

def findInDirectory (device : BlockDevice) (fs : Fat32) (directory : UInt32) (shortName : List UInt8) :
    Except Status File :=
  findInClusters device fs shortName (fs.clusterCount.toNat + 1) directory

def mount (device : BlockDevice) (partition : Partition) : Except Status Fat32 :=
  if partition.sectorCount = 0 then .error .notFat32
  else if partition.firstLba ≥ device.sectorCount ||
      partition.sectorCount > device.sectorCount - partition.firstLba then .error .corrupt
  else
  match device.blockRead partition.firstLba 1 with
  | none => .error .ioError
  | some boot =>
    if boot 510 ≠ 0x55 || boot 511 ≠ 0xaa then .error .notFat32 else
    let bytesPerSector := le16 boot 11
    let sectorsPerCluster := boot 13
    let reserved := le16 boot 14
    let fatCount := boot 16
    let rootEntries := le16 boot 17
    let total16 := le16 boot 19
    let fat16 := le16 boot 22
    let total32 := le32 boot 32
    let fat32 := le32 boot 36
    let rootCluster := le32 boot 44
    if bytesPerSector ≠ 512 then .error .unsupported
    else if !powerOfTwoU8 sectorsPerCluster || sectorsPerCluster > 128 then .error .corrupt
    else if reserved = 0 || fatCount = 0 || fatCount > 2 || rootEntries ≠ 0 || fat16 ≠ 0 || fat32 = 0 then
      .error .notFat32
    else
      let total := if total16 ≠ 0 then total16.toUInt32 else total32
      if total = 0 || total.toUInt64 > partition.sectorCount then .error .corrupt else
      let fatArea := fatCount.toUInt64 * fat32.toUInt64
      if reserved.toUInt64 + fatArea ≥ total.toUInt64 then .error .corrupt else
      let dataSectors := (total.toUInt64 - reserved.toUInt64 - fatArea).toUInt32
      let clusters := dataSectors / sectorsPerCluster.toUInt32
      if clusters < minClusters then .error .notFat32
      else if rootCluster < 2 || rootCluster ≥ clusters + 2 then .error .corrupt
      else .ok
        { partitionLba := partition.firstLba
          partitionSectors := total.toUInt64
          fatLba := reserved.toUInt32
          dataLba := (reserved.toUInt64 + fatArea).toUInt32
          sectorsPerFat := fat32
          clusterCount := clusters
          rootCluster
          sectorsPerCluster
          fatCount }

/-- The loop of `josh_fat32_open_path` over the segments of what is left of the path. Every round takes at
least one byte of it, so its length bounds the rounds. -/
def openSegments (device : BlockDevice) (fs : Fat32) : (n : Nat) → (directory : UInt32) → List UInt8 → Except Status File
  | 0, _, _ => .error .badPath
  | n + 1, directory, path =>
    let segment := path.takeWhile (· ≠ 0x2f)
    let rest := path.drop segment.length
    match shortNameFromSegment segment with
    | .error status => .error status
    | .ok shortName =>
      match findInDirectory device fs directory shortName with
      | .error status => .error status
      | .ok found =>
        let rest := rest.dropWhile (· = 0x2f)
        if rest = [] then .ok found
        else if found.attributes &&& attrDirectory = 0 then .error .notDirectory
        else if !clusterValid fs found.firstCluster then .error .corrupt
        else openSegments device fs n found.firstCluster rest

/-- `josh_fat32_open_path` -/
def openPath (device : BlockDevice) (fs : Fat32) (path : List UInt8) : Except Status File :=
  let path := path.dropWhile (· = 0x2f)
  if path = [] then .ok { firstCluster := fs.rootCluster, size := 0, attributes := attrDirectory }
  else openSegments device fs path.length fs.rootCluster path

/-- What a read has done so far: the bytes in the buffer, and how many are still to come. -/
structure Reading where
  out : List UInt8
  remaining : UInt32

/-- The sector loop of a read: `n` sectors from `lba`, the first from `byteOffset` on. -/
def readSectors (device : BlockDevice) : (n : Nat) → (lba : UInt64) → (byteOffset : UInt32) → Reading → Status × Reading
  | 0, _, _, r => (.ok, r)
  | n + 1, lba, byteOffset, r =>
    if r.remaining = 0 then (.ok, r) else
    match device.blockRead lba 1 with
    | none => (.ioError, r)
    | some sector =>
      let take := if 512 - byteOffset > r.remaining then r.remaining else 512 - byteOffset
      readSectors device n (lba + 1) 0
        { out := r.out ++ sector.slice byteOffset.toNat take.toNat, remaining := r.remaining - take }

/-- The cluster loop of a read, at most `n` rounds of it. -/
def readClusters (device : BlockDevice) (fs : Fat32) :
    (n : Nat) → (visited cluster offsetInCluster : UInt32) → Reading → Status × Reading
  | 0, _, _, _, r => (.corrupt, r)
  | n + 1, visited, cluster, offsetInCluster, r =>
    if r.remaining = 0 then (.ok, r)
    else if visited > fs.clusterCount then (.corrupt, r)
    else
    match clusterLba fs cluster with
    | .error status => (status, r)
    | .ok baseLba =>
      let firstSector := offsetInCluster / 512
      let byteOffset := offsetInCluster % 512
      match readSectors device (fs.sectorsPerCluster.toNat - firstSector.toNat) (baseLba + firstSector.toUInt64)
        byteOffset r with
      | (.ok, r) =>
        if r.remaining = 0 then (.ok, r) else
        match nextCluster device fs cluster with
        | .error status => (status, r)
        | .ok next => if next ≥ eocMin then (.corrupt, r) else readClusters device fs n (visited + 1) next 0 r
      | failed => failed

def skipClusters (device : BlockDevice) (fs : Fat32) : (n : Nat) → (cluster : UInt32) → Option UInt32
  | 0, cluster => some cluster
  | n + 1, cluster =>
    match nextCluster device fs cluster with
    | .error _ => none
    | .ok next => if next ≥ eocMin then none else skipClusters device fs n next

structure ReadResult where
  status : Status
  bytesRead : UInt32
  out : List UInt8

/-- `josh_fat32_read_file`. The loop stops by itself after `clusterCount + 1` clusters. -/
def readFile (device : BlockDevice) (fs : Fat32) (file : File) (offset length : UInt32) : ReadResult :=
  let fail (status : Status) (out : List UInt8) : ReadResult := { status, bytesRead := 0, out }
  if file.attributes &&& attrDirectory ≠ 0 then fail .notDirectory []
  else if offset > file.size then fail .badPath []
  else
  let available := file.size - offset
  let length := if length > available then available else length
  if length = 0 then { status := .ok, bytesRead := 0, out := [] }
  else if !clusterValid fs file.firstCluster then fail .corrupt []
  else
  let clusterBytes := fs.sectorsPerCluster.toUInt32 * 512
  let skip := offset / clusterBytes
  match skipClusters device fs skip.toNat file.firstCluster with
  | none => fail .corrupt []
  | some cluster =>
    match readClusters device fs (fs.clusterCount.toNat + 2) skip cluster (offset % clusterBytes) ⟨[], length⟩ with
    | (.ok, r) => { status := .ok, bytesRead := length, out := r.out }
    | (status, r) => fail status r.out

/-- The smallest volume that mounts. -/
def smallVolume : Fat32 where
  partitionLba := 2048
  partitionSectors := 66038
  fatLba := 1
  dataLba := 513
  sectorsPerFat := 512
  clusterCount := 65525
  rootCluster := 2
  sectorsPerCluster := 1
  fatCount := 1

/-! ### How much a read delivers -/

theorem ite_gt_le (a b : UInt32) : (if a > b then b else a) ≤ b := by
  split
  · exact UInt32.le_refl b
  · next h => exact UInt32.not_lt.1 h

theorem readSectors_length {device : BlockDevice} {n : Nat} {lba : UInt64} {byteOffset : UInt32} {r r' : Reading}
    {status : Status} (h : readSectors device n lba byteOffset r = (status, r')) :
    r'.out.length + r'.remaining.toNat = r.out.length + r.remaining.toNat := by
  induction n generalizing lba byteOffset r with
  | zero => cases h; rfl
  | succ n ih =>
    unfold readSectors at h
    split at h
    · cases h; rfl
    split at h
    · cases h; rfl
    next sector _ =>
      have key : ∀ take : UInt32, take ≤ r.remaining →
          take.toNat + (r.remaining - take).toNat = r.remaining.toNat := by
        intro take ht
        have := UInt32.le_iff_toNat_le.1 ht
        rw [UInt32.toNat_sub_of_le _ _ ht]
        omega
      have h₁ := ih h
      simp only [List.length_append, Bytes.length_slice] at h₁
      have h₂ := key _ (ite_gt_le (512 - byteOffset) r.remaining)
      omega

theorem clusterLba_ne_ok (fs : Fat32) (cluster : UInt32) : clusterLba fs cluster ≠ .error .ok := by
  intro h
  simp only [clusterLba] at h
  split at h
  · cases h
  · split at h <;> cases h

theorem nextCluster_ne_ok (device : BlockDevice) (fs : Fat32) (cluster : UInt32) :
    nextCluster device fs cluster ≠ .error .ok := by
  intro h
  simp only [nextCluster] at h
  split at h
  · cases h
  split at h
  · cases h
  split at h
  · cases h
  · split at h <;> cases h

theorem readClusters_length {device : BlockDevice} {fs : Fat32} {n : Nat} {visited cluster offset : UInt32}
    {r r' : Reading} {status : Status} (h : readClusters device fs n visited cluster offset r = (status, r')) :
    r'.out.length + r'.remaining.toNat = r.out.length + r.remaining.toNat ∧ (status = .ok → r'.remaining = 0) := by
  induction n generalizing visited cluster offset r with
  | zero => cases h; exact ⟨rfl, nofun⟩
  | succ n ih =>
    unfold readClusters at h
    split at h
    · next h0 => cases h; exact ⟨rfl, fun _ => h0⟩
    split at h
    · cases h; exact ⟨rfl, nofun⟩
    split at h
    · next status' hc =>
      cases h
      refine ⟨rfl, ?_⟩
      rintro rfl
      exact absurd hc (clusterLba_ne_ok fs cluster)
    next baseLba _ =>
      simp only at h
      split at h
      next r₁ hs =>
        have h₁ := readSectors_length hs
        split at h
        · next h0 => cases h; exact ⟨h₁, fun _ => h0⟩
        split at h
        · next status' hc =>
          cases h
          refine ⟨h₁, ?_⟩
          rintro rfl
          exact absurd hc (nextCluster_ne_ok device fs cluster)
        split at h
        · cases h; exact ⟨h₁, nofun⟩
        · have h₂ := ih h
          exact ⟨h₂.1.trans h₁, h₂.2⟩
      next hne =>
        refine ⟨readSectors_length h, ?_⟩
        rintro rfl
        exact absurd h (hne r')

theorem readFile_out {device : BlockDevice} {fs : Fat32} {file : File} {offset length : UInt32} {r : ReadResult}
    (h : readFile device fs file offset length = r) (hok : r.status = .ok) : r.out.length = r.bytesRead.toNat := by
  simp only [readFile] at h
  split at h
  · subst h; cases hok
  split at h
  · subst h; cases hok
  generalize (if length > file.size - offset then file.size - offset else length) = n at h
  split at h
  · subst h; rfl
  split at h
  · subst h; cases hok
  split at h
  · subst h; cases hok
  split at h
  next r' hr =>
    subst h
    have h₁ := readClusters_length hr
    simpa [h₁.2 rfl] using h₁.1
  next status r' hne _ =>
    subst h
    subst hok
    exact absurd rfl hne

theorem readFile_out_le (device : BlockDevice) (fs : Fat32) (file : File) (offset length : UInt32) :
    (readFile device fs file offset length).out.length ≤ length.toNat := by
  simp only [readFile]
  split
  · exact Nat.zero_le _
  split
  · exact Nat.zero_le _
  have hle : (if length > file.size - offset then file.size - offset else length) ≤ length := by
    split
    next hgt => exact UInt32.le_of_lt hgt
    · exact UInt32.le_refl _
  generalize (if length > file.size - offset then file.size - offset else length) = n at hle
  have hle' := UInt32.le_iff_toNat_le.1 hle
  split
  · exact Nat.zero_le _
  split
  · exact Nat.zero_le _
  split
  · exact Nat.zero_le _
  have hout : ∀ {k : Nat} {visited cluster offset : UInt32} {status : Status} {r : Reading},
      readClusters device fs k visited cluster offset ⟨[], n⟩ = (status, r) → r.out.length ≤ length.toNat := by
    intro k visited cluster offset status r hr
    have hlen := (readClusters_length hr).1
    simp only [List.length_nil] at hlen
    omega
  split
  next r hr => exact hout hr
  next status r _ hr => exact hout hr

end Fat32

end JoshBios
