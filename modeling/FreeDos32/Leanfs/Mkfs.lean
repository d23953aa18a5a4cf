import FreeDos32.Leanfs.Open

namespace FreeDos32.Leanfs

open Fat (overlay)

def leanfsSbMagic : ℕ := 0x4E41454C

def leanfsSbClean : ℕ := 1 <<< 0

/-- The sum of the words before the checksum. -/
def leanfsChecksum (superblock : ℕ → UInt8) : ℕ := ((List.range 25).map (word superblock)).sum % 2 ^ 32

/-- What `mkleanfs` is called with, and the clusters of the device as they were. -/
structure Format where
  clusters : ℕ
  clusters_lt : clusters < 2 ^ 32
  logBytesPerSector : ℕ
  logSectorsPerCluster : ℕ
  device : ℕ → ℕ → UInt8
  deviceEnd : ℕ

namespace Format

def sectorBytes (x : Format) : ℕ := 2 ^ x.logBytesPerSector

def clusterBytes (x : Format) : ℕ := 2 ^ (x.logBytesPerSector + x.logSectorsPerCluster)

-- the sum is one of 32 bits
def bitmapClustersCount (x : Format) : ℕ := (x.clusters + x.clusterBytes * 8 - 1) % 2 ^ 32 / (x.clusterBytes * 8)

def bitmapStartCluster (x : Format) : ℕ := if x.logSectorsPerCluster = 0 then 2 else 1

def backupSuper (x : Format) : ℕ := x.bitmapStartCluster + x.bitmapClustersCount

def rootStartCluster (x : Format) : ℕ := x.backupSuper + 1

def freeClustersCount (x : Format) : ℕ := (x.clusters + 2 ^ 32 - x.rootStartCluster - 1) % 2 ^ 32

/-- The superblock that the checksum is taken of. -/
def superFields (x : Format) : ℕ → UInt8 :=
  setWord 21 x.freeClustersCount (setWord 23 x.rootStartCluster (setWord 19 x.backupSuper (setWord 22 x.bitmapStartCluster
    (setWord 20 x.clusters (overlay 74 [UInt8.ofNat x.logBytesPerSector, UInt8.ofNat x.logSectorsPerCluster]
      (setWord 0 leanfsSbMagic fun _ => 0))))))

def superBlock (x : Format) : ℕ → UInt8 :=
  overlay 8 ("New LEAN volume".toList.map fun c => UInt8.ofNat c.toNat)
    (setWord 26 leanfsSbClean (setWord 25 (leanfsChecksum x.superFields) x.superFields))

/-- The loop that sets the bits of one cluster of the bitmap, from `cluster` on, at bit `bit` of byte `k`. -/
def fillBits (x : Format) : ℕ → ℕ → ℕ → ℕ → (ℕ → UInt8) → ℕ × (ℕ → UInt8)
  | 0, cluster, _, _, buffer => (cluster, buffer)
  | fuel + 1, cluster, k, bit, buffer =>
    if cluster ≤ x.rootStartCluster ∧ k < x.clusterBytes then
      let buffer := overlay k [buffer k ||| 1 <<< UInt8.ofNat bit] buffer
      if bit + 1 = 8 then fillBits x fuel (cluster + 1) (k + 1) 0 buffer
      else fillBits x fuel (cluster + 1) k (bit + 1) buffer
    else (cluster, buffer)

/-- Writes `n` clusters of the bitmap, from cluster `j` of it on. -/
def writeBitmap (x : Format) : ℕ → ℕ → ℕ → (ℕ → ℕ → UInt8) → ℕ → ℕ → UInt8
  | 0, _, _, disk => disk
  | n + 1, j, cluster, disk =>
    let filled := fillBits x (x.clusterBytes * 8) cluster 0 0 fun _ => 0
    writeBitmap x n (j + 1) filled.1 fun b => if b = x.bitmapStartCluster + j then filled.2 else disk b

def rootInode (x : Format) : Inode :=
  ((((Inode.setFileSize 24 fun _ => 0).setClustersCount ((24 + x.clusterBytes - 1) / x.clusterBytes)).setAttributes
    (leanfsIrusr ||| leanfsIwusr ||| leanfsIxusr ||| leanfsIfdir))).setLinksCount 2

def rootCluster (x : Format) : ℕ → UInt8 :=
  x.rootInode.store (overlay inodeSize (dotEntries x.rootStartCluster x.rootStartCluster) fun _ => 0)

/-- Sector 1, where a cluster has more than one sector. -/
def writeSector (x : Format) (data : ℕ → UInt8) (disk : ℕ → ℕ → UInt8) : ℕ → ℕ → UInt8 := fun b i =>
  if b = 0 ∧ x.sectorBytes ≤ i ∧ i < 2 * x.sectorBytes then data (i - x.sectorBytes) else disk b i

def writeCluster (b : ℕ) (data : ℕ → UInt8) (disk : ℕ → ℕ → UInt8) : ℕ → ℕ → UInt8 := Function.update disk b data

/-- The clusters after `mkleanfs`. It takes a cluster of one sector, of which `fwrite` returns 1, for not written. The
superblock does not fit into smaller clusters, and the bits of larger ones are 0 in 32 bits, which it divides by. -/
def mkleanfs (x : Format) : Option (ℕ → ℕ → UInt8) :=
  if x.logSectorsPerCluster = 0 ∨ x.clusterBytes < 512 ∨ 2 ^ 29 ≤ x.clusterBytes then none
  else
    let disk := x.writeSector x.superBlock x.device
    let disk := writeCluster x.backupSuper x.superBlock disk
    let disk := x.writeBitmap x.bitmapClustersCount 0 0 disk
    some (writeCluster x.rootStartCluster x.rootCluster disk)

/-- The volume mounted, on a device with blocks of the size of its sectors. They have to have room for the fields of
the superblock. -/
def leanfsMount (x : Format) (env : Env) : Option Volume :=
  (mkleanfs x).bind fun disk =>
    let sb := fun i => disk 0 (x.sectorBytes + i)
    if 108 ≤ x.sectorBytes ∧ (sb 75).toNat ≤ 3 then
      some
        { logClusterBytes := (sb 74).toNat + (sb 75).toNat, clustersCount := word sb 20,
          bitmapStartCluster := word sb 22, backupSuper := word sb 19, rootStartCluster := word sb 23,
          freeClustersCount := word sb 21, lru := (List.range numBuffers).reverse, held := fun _ => none,
          clusters := disk, deviceEnd := max x.deviceEnd (x.rootStartCluster + 1),
          pfiles := fun _ => { inode := fun _ => 0, firstCluster := 0, references := 0 }, numPFiles := 0,
          files := fun _ => { pf := 0, flags := 0, references := 0, filePointer := 0, icluster := 0, iclusterFirst := 0 },
          numFiles := 0, env := env, ticks := 0 }
    else none

end Format

end FreeDos32.Leanfs
