import FreeDos32.Fat.Table
import FreeDos32.Leanfs.Requests

namespace FreeDos32.Leanfs

open Fat (overlay overlay_of_lt overlay_of_ge overlay_at le16 le32 get16 get32)

variable {m m' : ℕ → UInt8} {i : Inode} {k k' n o x : ℕ}

theorem word_lt (m : ℕ → UInt8) (k : ℕ) : word m k < 2 ^ 32 := by
  have h := fun j => UInt8.toNat_lt (m j)
  have h0 := h (4 * k)
  have h1 := h (4 * k + 1)
  have h2 := h (4 * k + 2)
  have h3 := h (4 * k + 2 + 1)
  simp only [word, get32, get16]
  omega

theorem word_congr (h : ∀ j, 4 * k ≤ j → j < 4 * k + 4 → m' j = m j) : word m' k = word m k := by
  simp only [word, get32, get16]
  rw [h _ (by omega) (by omega), h _ (by omega) (by omega), h _ (by omega) (by omega), h _ (by omega) (by omega)]

theorem length_le32 (x : ℕ) : (le32 x).length = 4 := rfl

theorem word_setWord_self (k x : ℕ) (m : ℕ → UInt8) : word (setWord k x m) k = x % 2 ^ 32 := by
  have h := Fat.get32_le32 x (fun j => setWord k x m (4 * k + j)) fun j hj => overlay_at hj
  exact h

theorem word_setWord_of_lt (h : x < 2 ^ 32) (k : ℕ) (m : ℕ → UInt8) : word (setWord k x m) k = x := by
  rw [word_setWord_self, Nat.mod_eq_of_lt h]

theorem setWord_outside (h : o < 4 * k ∨ 4 * k + 4 ≤ o) (x : ℕ) (m : ℕ → UInt8) : setWord k x m o = m o := by
  rcases h with h | h
  · exact overlay_of_lt h
  · exact overlay_of_ge (by rwa [length_le32])

theorem word_setWord_ne (h : k' ≠ k) (x : ℕ) (m : ℕ → UInt8) : word (setWord k x m) k' = word m k' :=
  word_congr fun j hj hj' => setWord_outside (by omega) x m

namespace Inode

theorem clustersCount_lt (i : Inode) : i.clustersCount < 2 ^ 32 := word_lt i 2

/-- The fields that say which clusters a file has, how long it is, and how often and as what it is linked. -/
structure Alike (i j : Inode) : Prop where
  fileSize : i.fileSize = j.fileSize
  clustersCount : i.clustersCount = j.clustersCount
  dcluster : ∀ k < 15, i.dcluster k = j.dcluster k
  iclustersHead : i.iclustersHead = j.iclustersHead
  attributes : i.attributes = j.attributes
  linksCount : i.linksCount = j.linksCount

theorem Alike.refl (i : Inode) : i.Alike i := ⟨rfl, rfl, fun _ _ => rfl, rfl, rfl, rfl⟩

theorem alike_setWord (h : k = 3 ∨ k = 4 ∨ k = 5) (x : ℕ) (i : Inode) : Alike (setWord k x i) i := by
  constructor
  · rw [fileSize, fileSize, word_setWord_ne (by omega), word_setWord_ne (by omega)]
  · exact word_setWord_ne (by omega) ..
  · exact fun n hn => word_setWord_ne (by omega) ..
  · exact word_setWord_ne (by omega) ..
  · exact word_setWord_ne (by omega) ..
  · exact word_setWord_ne (by omega) ..

theorem Alike.trans {j l : Inode} (h : i.Alike j) (h' : j.Alike l) : i.Alike l where
  fileSize := h.fileSize.trans h'.fileSize
  clustersCount := h.clustersCount.trans h'.clustersCount
  dcluster k hk := (h.dcluster k hk).trans (h'.dcluster k hk)
  iclustersHead := h.iclustersHead.trans h'.iclustersHead
  attributes := h.attributes.trans h'.attributes
  linksCount := h.linksCount.trans h'.linksCount

end Inode

end FreeDos32.Leanfs
