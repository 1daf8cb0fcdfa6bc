import ControlScript.Store.Basic
import Mathlib.Data.List.Basic
import Mathlib.Logic.Function.Basic

/-!
# Damaged images

An image ends with the checksum of its region, so that a damaged one is not taken for a program. A
change of a single byte never goes unnoticed, wherever it is and however long the region. The reason
is that no step of the checksum loses anything: the bit that a step shifts out comes back in the
highest place, so two checksums that differ still differ after any number of equal bytes.

## Main definitions

* `Bytes.Altered` — two byte strings that are the same but for one byte

## Main results

* `Checksum.step_injective`, `Checksum.foldl_update_injective` — a bit and a byte string lose no
  difference
* `Checksum.ofBytes_ne_of_altered` — one byte that is another makes another checksum
* `Image.region?_eq_none_of_altered` — an image with another byte in it is not sound
* `Store.empty_of_altered_image` — a store that is opened on such an image is empty
-/

namespace ControlScript

namespace Bytes

variable {xs ys zs : Bytes}

/-- Two byte strings that are the same but for one byte. -/
def Altered (xs ys : Bytes) : Prop :=
  ∃ before a b after, a ≠ b ∧ xs = before ++ a :: after ∧ ys = before ++ b :: after

theorem Altered.length_eq (altered : xs.Altered ys) : xs.length = ys.length := by
  obtain ⟨before, a, b, after, -, rfl, rfl⟩ := altered
  simp

theorem Altered.ne (altered : xs.Altered ys) : xs ≠ ys := by
  obtain ⟨before, a, b, after, other, rfl, rfl⟩ := altered
  simpa using other

/-- The byte that is another stands in the front part or in the back part. -/
theorem Altered.of_append (altered : (xs ++ ys).Altered zs) :
    (∃ xs', xs.Altered xs' ∧ zs = xs' ++ ys) ∨ ∃ ys', ys.Altered ys' ∧ zs = xs ++ ys' := by
  obtain ⟨before, a, b, after, other, joined, rfl⟩ := altered
  -- Either all of the front part stands before that byte, or the front part goes on behind it.
  rcases List.append_eq_append_iff.mp joined with ⟨middle, rfl, back⟩ | ⟨middle, front, back⟩
  · exact .inr ⟨middle ++ b :: after, ⟨middle, a, b, after, other, back, rfl⟩, by simp⟩
  · cases middle with
    | nil =>
      refine .inr ⟨b :: after, ⟨[], a, b, after, other, back.symm, rfl⟩, ?_⟩
      rw [front, List.append_nil]
    | cons first middle =>
      cases back
      exact .inl ⟨before ++ b :: middle, ⟨before, a, b, middle, other, front, rfl⟩, by simp⟩

end Bytes

namespace Checksum

/-- The generating polynomial has the highest place, where a shift leaves nothing. So the highest bit
after a step is the one that was shifted out. -/
theorem getLsbD_step (c : Checksum) : (step c).getLsbD 31 = c.getLsbD 0 := by
  unfold step
  split
  · next set => simp [set, polynomial]
  · next clear => simpa using clear

/-- A bit loses no difference. -/
theorem step_injective : Function.Injective step := by
  intro c d same
  -- What was shifted out is told by the result, so both steps took the same branch.
  have lowest : c.getLsbD 0 = d.getLsbD 0 := by rw [← getLsbD_step, ← getLsbD_step, same]
  have others : c >>> 1 = d >>> 1 := by
    unfold step at same
    rw [lowest] at same
    split at same
    · exact (BitVec.xor_left_inj polynomial).mp same
    · exact same
  refine BitVec.eq_of_getLsbD_eq fun i _ => ?_
  cases i with
  | zero => exact lowest
  | succ i =>
    have shifted := congrArg (·.getLsbD i) others
    simpa [Nat.add_comm] using shifted

theorem repeat_step_injective (n : Nat) : Function.Injective (Nat.repeat step n) := by
  induction n with
  | zero => exact Function.injective_id
  | succ n ih => exact step_injective.comp ih

/-- A byte loses no difference between two checksums. -/
theorem update_injective (b : UInt8) : Function.Injective (update · b) := fun _ _ same =>
  (BitVec.xor_left_inj _).mp (repeat_step_injective 8 same)

/-- Neither do two bytes become one. -/
theorem update_injective_right (c : Checksum) : Function.Injective (update c) := by
  intro a b same
  have widened := (BitVec.xor_right_inj _).mp (repeat_step_injective 8 same)
  have narrowed := congrArg (BitVec.setWidth 8) widened
  exact UInt8.toBitVec_inj.mp (by simpa using narrowed)

/-- Bytes lose no difference between two checksums, however many there are. -/
theorem foldl_update_injective (bytes : Bytes) :
    Function.Injective fun c : Checksum => bytes.foldl update c := by
  induction bytes with
  | nil => exact Function.injective_id
  | cons b bytes ih => exact ih.comp (update_injective b)

/-- One byte that is another makes another checksum. -/
theorem ofBytes_ne_of_altered {xs ys : Bytes} (altered : xs.Altered ys) :
    ofBytes xs ≠ ofBytes ys := by
  obtain ⟨before, a, b, after, other, rfl, rfl⟩ := altered
  intro same
  -- What stands behind the byte hides no difference, and what stands before it makes none.
  have folded := BitVec.not_inj.mp same
  rw [List.foldl_append, List.foldl_append, List.foldl_cons, List.foldl_cons] at folded
  exact other (update_injective_right _ (foldl_update_injective after folded))

/-- A checksum is told by its bytes. -/
theorem toBytes_injective : Function.Injective toBytes := by
  intro c d same
  have parts : ∀ place ∈ [0, 8, 16, 24], c.extractLsb' place 8 = d.extractLsb' place 8 := by
    intro place member
    exact congrArg UInt8.toBitVec (List.map_inj_left.mp same place member)
  -- Place `i` belongs to the byte that begins at `8 * (i / 8)`.
  refine BitVec.eq_of_getLsbD_eq fun i inside => ?_
  have member : 8 * (i / 8) ∈ [0, 8, 16, 24] := by
    simp only [List.mem_cons, List.not_mem_nil, or_false]
    omega
  have bit := congrArg (·.getLsbD (i % 8)) (parts _ member)
  have small : i % 8 < 8 := Nat.mod_lt i (by decide)
  simpa [small, Nat.div_add_mod] using bit

end Checksum

namespace Image

/-- What is read as an image of a region and four more bytes. -/
theorem region?_append (region : Bytes) {sum : Bytes} (length : sum.length = 4) :
    region? region.length (region ++ sum) =
      if sum = (Checksum.ofBytes region).toBytes then some region else none := by
  simp [region?, length]

/-- An image with another byte in it is not sound, whether the byte belongs to the region or to the
checksum. -/
theorem region?_eq_none_of_altered {region image : Bytes}
    (altered : (ofRegion region).Altered image) : region? region.length image = none := by
  rcases altered.of_append with ⟨region', inRegion, rfl⟩ | ⟨sum, inSum, rfl⟩
  · rw [inRegion.length_eq, region?_append region' (Checksum.length_toBytes _)]
    refine if_neg fun same => ?_
    exact Checksum.ofBytes_ne_of_altered inRegion (Checksum.toBytes_injective same)
  · rw [region?_append region (inSum.length_eq.symm.trans (Checksum.length_toBytes _))]
    exact if_neg inSum.ne.symm

end Image

namespace Store

open Attempt

/-- A store that is opened on an image finds the region of it, and nothing if it is not sound. -/
theorem open?_of_contents {file : File} {image : Bytes} (reachable : file.reachable = true)
    (contents : file.contents = some image) (capacity : Nat) :
    open? file capacity = some (ofRegion ((Image.region? capacity image).getD
      (List.replicate capacity Byte.programEnd)) (.file file)) := by
  simp [open?, File.load?, reachable, contents]

/-- The image that a store has saved brings its region back. If one byte of it is another, anywhere
in the region or in the checksum, then a store of the same capacity that is opened on it is empty and
not valid. -/
theorem empty_of_altered_image {s : Store} {file : File} (backed : s.medium = .file file)
    (saves : file.fails = false) :
    let image := Image.ofRegion s.region
    ∃ saved, (reached (save s)).medium = .file saved ∧ saved.contents = some image ∧
      (∃ opened, open? saved s.capacity = some opened ∧ opened.region = s.region) ∧
      ∀ (damaged : File) (altered : Bytes), image.Altered altered →
        damaged.contents = some altered → damaged.reachable = true →
        ∃ opened, open? damaged s.capacity = some opened ∧
          opened.region = List.replicate s.capacity Byte.programEnd ∧
          opened.program = [] ∧ opened.valid = false := by
  intro image
  have reachable : (file.afterWrite image).reachable = true := by
    change file.reachable = true
    exact File.reachable_of_not_fails saves
  have written : (file.afterWrite image).contents = some image := by
    simp [File.afterWrite, saves]
  refine ⟨file.afterWrite image, ?_, written, ?_, ?_⟩
  · rw [reached_save, backed]
    rfl
  · refine ⟨_, open?_of_contents reachable written s.capacity, ?_⟩
    rw [capacity, Image.region?_ofRegion]
    rfl
  · intro damaged altered differs contents reachable
    have unsound : Image.region? s.capacity altered = none :=
      Image.region?_eq_none_of_altered differs
    refine ⟨_, open?_of_contents reachable contents s.capacity, ?_⟩
    rw [unsound, Option.getD_none]
    -- Without a sound image the region is all zeros, and a program ends at the first.
    refine ⟨rfl, ?_, ?_⟩
    · cases s.capacity <;> simp [ofRegion, program, List.replicate_succ]
    · cases s.capacity <;> simp [ofRegion, List.replicate_succ]

/-- A store of four bytes with a program of three. Without the damage, which is to one bit of the
checksum, the program would be there. -/
theorem empty_of_altered_image_of_three :
    let s : Store := { region := [0x57, 0x4C, 0x0D, 0x00], valid := true, medium := .file {} }
    let image : Bytes := [0x57, 0x4C, 0x0D, 0x00, 0xEE, 0xE2, 0xB0, 0xBB]
    let altered : Bytes := [0x57, 0x4C, 0x0D, 0x00, 0xEE, 0xE2, 0xB1, 0xBB]
    s.medium = .file {} ∧ File.fails {} = false ∧ Image.ofRegion s.region = image ∧
      image.Altered altered ∧
      (∃ opened, open? { contents := some image } 4 = some opened ∧
        opened.program = [0x57, 0x4C, 0x0D] ∧ opened.valid = true) ∧
      ∃ opened, open? { contents := some altered } 4 = some opened ∧
        opened.program = [] ∧ opened.valid = false := by
  intro s image altered
  have same : Image.ofRegion s.region = image := by decide +kernel
  have differs : image.Altered altered :=
    ⟨[0x57, 0x4C, 0x0D, 0x00, 0xEE, 0xE2], 0xB0, 0xB1, [0xBB], by decide, rfl, rfl⟩
  have backed : s.medium = .file {} := rfl
  have saves : File.fails {} = false := rfl
  obtain ⟨_, -, -, -, empty⟩ := empty_of_altered_image backed saves
  obtain ⟨opened, opens, -, nothing⟩ :=
    empty { contents := some altered } altered (same ▸ differs) rfl rfl
  exact ⟨backed, saves, same, differs, ⟨_, rfl, by decide +kernel, by decide +kernel⟩,
    opened, opens, nothing⟩

end Store

end ControlScript
