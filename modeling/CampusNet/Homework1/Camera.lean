import CampusNet.Homework1.OpticalCommunication
import Mathlib.Data.List.Flatten

/-!
# Through the screen and the camera

`receive` of `homework1/solution.py`.  What the camera delivers is a parameter, two frames of any
size, either of which may be missing; and so is `cv2.mean`.

* `slice` — a Python slice, whose negative indices count from the end.
* `centre`, `centerRoi` — the region `receive` averages; `length_centre` gives its size, also for
  frames too small for the slice to be central.
* `receive` — with the exception of a missing first frame and the unassigned `avg_color` of a
  missing second one.
* `ChannelMean` — what is assumed of `cv2.mean`: each channel's mean, up to a rounding error.
* `receive_recovers` — the message comes through as long as most pixels of the region are right.
-/

namespace CampusNet.OpticalCommunication

open Threshold

/-! ## Slices -/

/-- Where a slice index points in a sequence of `n`. -/
def sliceIndex (n : Nat) (i : Int) : Nat := if i < 0 then (i + n).toNat else min i.toNat n

/-- `l[start:stop]` -/
def slice {α : Type} (l : List α) (start stop : Int) : List α :=
  (l.take (sliceIndex l.length stop)).drop (sliceIndex l.length start)

/-- `l[n//2 - 50 : n//2 + 50]` -/
def centre {α : Type} (l : List α) : List α :=
  slice l ((l.length / 2 : Nat) - 50) ((l.length / 2 : Nat) + 50)

/-- The length of that slice of `n`: a hundred, or what is left from the wrapped start on. -/
def regionSide (n : Nat) : Nat := if 100 ≤ n then 100 else min n (50 - n / 2)

theorem length_centre {α : Type} (l : List α) : (centre l).length = regionSide l.length := by
  unfold centre slice sliceIndex regionSide
  rw [List.length_drop, List.length_take]
  by_cases hlarge : 100 ≤ l.length
  · rw [if_pos hlarge, if_neg (by omega), if_neg (by omega)]
    omega
  · rw [if_neg hlarge, if_neg (by omega), if_pos (by omega)]
    omega

theorem mem_of_mem_centre {α : Type} {l : List α} {a : α} (h : a ∈ centre l) : a ∈ l :=
  List.mem_of_mem_take (List.mem_of_mem_drop h)

/-! ## Frames -/

/-- Three channels of eight bits. -/
abbrev Pixel := Fin 3 → Fin 256

/-- A frame with rows of one width. -/
structure Frame where
  rows : List (List Pixel)
  width : Nat
  rectangular : ∀ row ∈ rows, row.length = width

def Frame.height (frame : Frame) : Nat := frame.rows.length

/-- The pixels of the region, row by row. -/
def Frame.centerRoi (frame : Frame) : List Pixel := (centre frame.rows).flatMap centre

/-- The four numbers that `cv2.mean` returns for a region. -/
abbrev Cv2Mean := List Pixel → Fin 4 → ℚ

/-- On a region that is not empty, the first numbers are the means of the channels, each computed
with an error of at most `ε`. -/
def ChannelMean (cv2Mean : Cv2Mean) (ε : ℚ) : Prop :=
  ∀ roi ≠ [], ∀ i : Fin 3,
    |cv2Mean roi i.castSucc - mean (roi.map fun p => ((p i).val : ℚ))| ≤ ε

/-- `cv2.mean(center_roi)[:3]` -/
def avgColor (cv2Mean : Cv2Mean) (roi : List Pixel) : Color ℚ := fun i => cv2Mean roi i.castSucc

inductive ReceiveError where
  | exception (message : String)
  | unboundLocal (name : String)
  deriving DecidableEq, Repr

section

variable {K : Type} [LinearOrder K]

/-- The first frame warms the camera up; the second one is read. -/
def receive (sqrt : ℚ → K) (cv2Mean : Cv2Mean) (mode : String) (warmUp second : Option Frame) :
    Except ReceiveError (Option Int) :=
  match warmUp with
  | none => .error (.exception "无法从摄像头读取画面")
  | some _ =>
    match second with
    | none => .error (.unboundLocal "avg_color")
    | some frame => .ok (decode sqrt mode (avgColor cv2Mean frame.centerRoi))

end

/-! ## The region -/

theorem length_centerRoi (frame : Frame) :
    frame.centerRoi.length = regionSide frame.height * regionSide frame.width := by
  have hrows : ∀ row ∈ centre frame.rows, (centre row).length = regionSide frame.width := by
    intro row hrow
    rw [length_centre, frame.rectangular row (mem_of_mem_centre hrow)]
  rw [Frame.centerRoi, List.length_flatMap, List.map_congr_left hrows, List.map_const',
    List.sum_replicate, length_centre, smul_eq_mul]
  rfl

/-- At most a hundred rows and columns. -/
theorem length_centerRoi_le (frame : Frame) : frame.centerRoi.length ≤ 10000 := by
  have hside : ∀ n, regionSide n ≤ 100 := by
    intro n
    unfold regionSide
    split
    · exact le_refl _
    · omega
  rw [length_centerRoi]
  exact Nat.mul_le_mul (hside _) (hside _)

/-! ## Decoding an average -/

/-- The pixel has the colour. -/
def Shows (color : Color ℤ) (p : Pixel) : Prop := ∀ i, ((p i).val : ℤ) = color i

instance (color : Color ℤ) (p : Pixel) : Decidable (Shows color p) :=
  inferInstanceAs (Decidable (∀ _, _))

/-- A colour within half of the level's distance of a palette colour is decoded as its message. -/
theorem decode_of_close {K : Type} [LinearOrder K] {sqrt : ℚ → K}
    (hsqrt : StrictMonoOn sqrt (Set.Ici 0)) {mode : String} {item : Int × Color ℤ}
    (hitem : item ∈ palette mode) {color : Color ℚ}
    (hclose : ∀ i, |color i - item.2 i| < ((255 : ℚ) - 0) / 2) :
    decode sqrt mode color = some item.1 := by
  have hlevels : ∀ i, (item.2 i : ℚ) = 0 ∨ (item.2 i : ℚ) = 255 := fun i => by
    exact_mod_cast palette_levels mode _ hitem i
  obtain ⟨hclear, hnearest⟩ := nearest_of_close hlevels hclose
  have hthreshold : threshold color = item.2 := by
    funext i
    rw [← threshold_eq_nearest] at hnearest
    exact_mod_cast congrFun hnearest i
  exact decode_threshold hsqrt hclear (by rw [hthreshold]; exact hitem)

/-- Fewer than half of at most 10000 pixels wrong: the average, rounded, is nearer to the colour
than to any other level. -/
theorem avgColor_close {cv2Mean : Cv2Mean} {ε : ℚ} (hmean : ChannelMean cv2Mean ε)
    (hround : ε < 255 / 20000) {mode : String} {item : Int × Color ℤ} (hitem : item ∈ palette mode)
    {roi : List Pixel} (hsize : roi.length ≤ 10000)
    (hgood : 2 * (roi.countP fun p => ¬Shows item.2 p) < roi.length) (i : Fin 3) :
    |avgColor cv2Mean roi i - item.2 i| < ((255 : ℚ) - 0) / 2 := by
  set channel : List ℚ := roi.map fun p => ((p i).val : ℚ) with hchannel
  have hlength : channel.length = roi.length := List.length_map _
  have hpos : (0 : ℚ) < roi.length := by exact_mod_cast (by omega : 0 < roi.length)
  have hbound : ∀ x ∈ channel, |x - item.2 i| ≤ 255 := by
    intro x hx
    obtain ⟨p, -, rfl⟩ := List.mem_map.mp hx
    have hp : ((p i).val : ℚ) ≤ 255 := by exact_mod_cast Nat.le_of_lt_succ (p i).isLt
    have hp0 : (0 : ℚ) ≤ ((p i).val : ℚ) := Nat.cast_nonneg _
    rcases palette_levels mode item hitem i with hlow | hhigh
    · rw [hlow]
      exact abs_le.mpr ⟨by push_cast; linarith, by push_cast; linarith⟩
    · rw [hhigh]
      exact abs_le.mpr ⟨by push_cast; linarith, by push_cast; linarith⟩
  have hright : 2 * (channel.countP fun x => x ≠ (item.2 i : ℚ)) < channel.length := by
    rw [hchannel, List.countP_map, List.length_map]
    refine lt_of_le_of_lt (Nat.mul_le_mul_left 2 (List.countP_mono_left fun p _ hp => ?_)) hgood
    simp only [Function.comp, ne_eq, decide_eq_true_eq] at hp ⊢
    intro hshows
    apply hp
    exact_mod_cast hshows i
  have hexact := abs_mean_sub_le (by norm_num) hbound hright
  have hrounded := hmean roi (List.ne_nil_of_length_pos (by omega)) i
  -- the rounding error is less than half of one pixel's share
  have hshare : (255 : ℚ) / 20000 ≤ 255 / (2 * roi.length) := by
    have hcast : (roi.length : ℚ) ≤ 10000 := by exact_mod_cast hsize
    exact div_le_div_of_nonneg_left (by norm_num) (by linarith) (by linarith)
  rw [hlength] at hexact
  calc |avgColor cv2Mean roi i - item.2 i|
      ≤ |avgColor cv2Mean roi i - mean channel| + |mean channel - item.2 i| := abs_sub_le _ _ _
    _ ≤ ε + (255 / 2 - 255 / (2 * roi.length)) := add_le_add hrounded hexact
    _ < (255 - 0) / 2 := by linarith

/-- **Through screen and camera**: whatever the size of the second frame and whatever the first
shows, the message comes through if fewer than half of the pixels that `receive` averages differ
from the colour sent, even where the region is not in the centre, and even if `cv2.mean` rounds by
a hundredth. -/
theorem receive_recovers {K : Type} [LinearOrder K] {sqrt : ℚ → K}
    (hsqrt : StrictMonoOn sqrt (Set.Ici 0)) {cv2Mean : Cv2Mean} {ε : ℚ}
    (hmean : ChannelMean cv2Mean ε) (hround : ε < 255 / 20000) {mode : String} {msg : Int}
    {sent : Color ℤ} (hencode : encode mode msg = .ok sent) (warmUp frame : Frame)
    (hgood : 2 * (frame.centerRoi.countP fun p => ¬Shows sent p) <
      regionSide frame.height * regionSide frame.width) :
    receive sqrt cv2Mean mode (some warmUp) (some frame) = .ok (some msg) := by
  have hitem := encode_ok_mem hencode
  rw [← length_centerRoi] at hgood
  exact congrArg _ (decode_of_close hsqrt hitem
    (avgColor_close hmean hround hitem (length_centerRoi_le frame) hgood))

/-- Three pixels in a row, of which one is white and two are red. -/
def smallFrame : Frame where
  rows := [[![255, 255, 255], ![0, 0, 255], ![0, 0, 255]]]
  width := 3
  rectangular := by simp

/-- The means without rounding, and nothing in the fourth channel. -/
def exactMean : Cv2Mean := fun roi =>
  Fin.snoc (fun i : Fin 3 => mean (roi.map fun p => ((p i).val : ℚ))) 0

theorem receive_recovers_small :
    receive (fun q => Real.sqrt q) exactMean "octal" (some smallFrame) (some smallFrame) =
      .ok (some 2) := by
  have hsqrt : StrictMonoOn (fun q : ℚ => Real.sqrt q) (Set.Ici 0) := fun x hx y _ hxy =>
    Real.sqrt_lt_sqrt (Rat.cast_nonneg.mpr hx) (Rat.cast_lt.mpr hxy)
  have hmean : ChannelMean exactMean 0 := by
    intro roi _ i
    rw [exactMean, Fin.snoc_castSucc, sub_self, abs_zero]
  have hred : encode "octal" 2 = .ok ![0, 0, 255] := rfl
  exact receive_recovers hsqrt hmean (by norm_num) hred smallFrame smallFrame (by decide)

end CampusNet.OpticalCommunication
