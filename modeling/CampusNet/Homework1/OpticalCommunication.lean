import CampusNet.Lib.Threshold
import Mathlib.Analysis.Real.Sqrt
import Mathlib.Data.Fin.VecNotation

/-!
# Optical communication

Model of `homework1/solution.py` with exact distances: `math.sqrt` is any root that is strictly
increasing on the numbers that are not negative.

* `binaryPalette`, `octalPalette`, `encode`, `decode` — as the source has them.
* `decode_eq_argmin` — the loop of `decode` is a first-wins search for the nearest colour.
* `ThresholdDecoder` — what a decoder by thresholds returns, and the noise it tolerates.
* `decode_thresholdDecoder` — `decode` is one.
-/

namespace CampusNet.OpticalCommunication

open Threshold

abbrev Color (α : Type) := Fin 3 → α

/-- A palette with its items in the order of insertion. -/
abbrev Palette := List (Int × Color ℤ)

def binaryPalette : Palette := [(1, ![0, 0, 0]), (0, ![255, 255, 255])]

def octalPalette : Palette :=
  [(0, ![0, 0, 0]), (1, ![255, 255, 255]), (2, ![0, 0, 255]), (3, ![255, 0, 0]),
    (4, ![0, 255, 0]), (5, ![255, 0, 255]), (6, ![255, 255, 0]), (7, ![0, 255, 255])]

def palette (mode : String) : Palette := if mode = "binary" then binaryPalette else octalPalette

/-- `encode`, with the text of its `ValueError`. -/
def encode (mode : String) (msg : Int) : Except String (Color ℤ) :=
  match (palette mode).lookup msg with
  | none => .error s!"消息 {msg} 不在调色板范围内"
  | some color => .ok color

/-- The variables of the loop in `decode`; `float('inf')` is `⊤`. -/
structure Search (K : Type) where
  minDistance : WithTop K
  decodedMsg : Option Int

variable {K : Type} [LinearOrder K]

def distance (sqrt : ℚ → K) (color : Color ℚ) (paletteColor : Color ℤ) : K :=
  sqrt (∑ i, (color i - paletteColor i) ^ 2)

def Search.step (sqrt : ℚ → K) (color : Color ℚ) (s : Search K) (item : Int × Color ℤ) :
    Search K :=
  let distance : WithTop K := (distance sqrt color item.2 : K)
  if distance < s.minDistance then ⟨distance, some item.1⟩ else s

def decode (sqrt : ℚ → K) (mode : String) (color : Color ℚ) : Option Int :=
  ((palette mode).foldl (Search.step sqrt color) ⟨⊤, none⟩).decodedMsg

/-- The colour with 255 in the channels above the threshold. -/
def threshold (color : Color ℚ) : Color ℤ := fun i => if (127.5 : ℚ) < color i then 255 else 0

/-- A decoder by thresholds: one for each channel in octal mode, one for the sum in binary mode;
and noise below the threshold in each channel changes no message. -/
structure ThresholdDecoder (decode : String → Color ℚ → Option Int) : Prop where
  octal : ∀ mode color, mode ≠ "binary" → (∀ i, color i ≠ 127.5) →
    ∃ msg, decode mode color = some msg ∧
      ∀ other, (other, threshold color) ∈ octalPalette ↔ other = msg
  binary : ∀ color : Color ℚ, decode "binary" color = some (if 382.5 < ∑ i, color i then 0 else 1)
  tolerates : ∀ mode msg sent (color : Color ℚ), encode mode msg = .ok sent →
    (∀ i, |color i - sent i| < 127.5) → decode mode color = some msg

/-! ## The search -/

/-- After any items, the search holds the first of the nearest ones. -/
theorem foldl_step (sqrt : ℚ → K) (color : Color ℚ) (items : Palette) :
    items.foldl (Search.step sqrt color) ⟨⊤, none⟩ =
      match items.argmin fun item => distance sqrt color item.2 with
      | none => ⟨⊤, none⟩
      | some item => ⟨(distance sqrt color item.2 : K), some item.1⟩ := by
  induction items using List.reverseRecOn with
  | nil => rfl
  | append_singleton items item ih =>
    rw [List.foldl_append, ih, List.argmin_concat]
    cases items.argmin fun item => distance sqrt color item.2 with
    | none => simp [Search.step]
    | some best =>
      by_cases hnearer : distance sqrt color item.2 < distance sqrt color best.2
      · simp [Search.step, hnearer]
      · simp [Search.step, hnearer]

theorem decode_eq_argmin (sqrt : ℚ → K) (mode : String) (color : Color ℚ) :
    decode sqrt mode color =
      ((palette mode).argmin fun item => distance sqrt color item.2).map Prod.fst := by
  rw [decode, foldl_step]
  cases (palette mode).argmin fun item => distance sqrt color item.2 with
  | none => rfl
  | some best => rfl

theorem distance_lt_iff {sqrt : ℚ → K} (hsqrt : StrictMonoOn sqrt (Set.Ici 0)) {color : Color ℚ}
    {p q : Color ℤ} : distance sqrt color p < distance sqrt color q ↔
      distSq color (fun i => (p i : ℚ)) < distSq color (fun i => (q i : ℚ)) := by
  have hnonneg : ∀ r : Color ℚ, 0 ≤ distSq color r := fun r =>
    Finset.sum_nonneg fun i _ => sq_nonneg _
  exact hsqrt.lt_iff_lt (hnonneg _) (hnonneg _)

/-- The search finds the item whose colour is strictly nearer than all others. -/
theorem decode_eq_of_nearest {sqrt : ℚ → K} (hsqrt : StrictMonoOn sqrt (Set.Ici 0)) {mode : String}
    {color : Color ℚ} {item : Int × Color ℤ} (hitem : item ∈ palette mode)
    (hnearer : ∀ other ∈ palette mode, other ≠ item →
      distSq color (fun i => (item.2 i : ℚ)) < distSq color (fun i => (other.2 i : ℚ))) :
    decode sqrt mode color = some item.1 := by
  rw [decode_eq_argmin, argmin_eq_some_of_lt hitem, Option.map_some]
  intro other hother hne
  exact (distance_lt_iff hsqrt).mpr (hnearer other hother hne)

/-! ## The palettes -/

/-- What holds of both palettes holds in every mode. -/
theorem palette_cases {Q : Palette → Prop} (hbinary : Q binaryPalette) (hoctal : Q octalPalette)
    (mode : String) : Q (palette mode) := by
  unfold palette
  split
  · exact hbinary
  · exact hoctal

theorem palette_levels (mode : String) :
    ∀ item ∈ palette mode, ∀ i, item.2 i = 0 ∨ item.2 i = 255 :=
  palette_cases (Q := fun palette => ∀ item ∈ palette, ∀ i, item.2 i = 0 ∨ item.2 i = 255)
    (by decide) (by decide) mode

/-- No colour is listed twice. -/
theorem palette_color_inj (mode : String) : ∀ item ∈ palette mode, ∀ other ∈ palette mode,
    item.2 = other.2 → item = other :=
  palette_cases (Q := fun palette => ∀ item ∈ palette, ∀ other ∈ palette,
    item.2 = other.2 → item = other) (by decide) (by decide) mode

theorem encode_ok_mem {mode : String} {msg : Int} {color : Color ℤ}
    (h : encode mode msg = .ok color) : (msg, color) ∈ palette mode := by
  unfold encode at h
  split at h
  · cases h
  · rename_i hlookup
    cases h
    obtain ⟨l₁, l₂, hpalette, -⟩ := List.lookup_eq_some_iff.mp hlookup
    rw [hpalette]
    simp

/-! ## The thresholds -/

theorem threshold_eq_nearest (color : Color ℚ) :
    (fun i => (threshold color i : ℚ)) = nearest 0 255 color := by
  funext i
  have hhalf : (127.5 : ℚ) < color i ↔ 0 + 255 < 2 * color i := by
    constructor
    · intro h
      linarith
    · intro h
      linarith
  simp only [threshold, nearest, hhalf]
  split
  · rfl
  · rfl

/-- All eight colours are listed. -/
theorem octal_listed (color : Color ℚ) : ∃ msg, (msg, threshold color) ∈ octalPalette := by
  have hall : ∀ up : Fin 3 → Bool, ∃ item ∈ octalPalette,
      item.2 = fun i => if up i then 255 else 0 := by decide
  obtain ⟨⟨msg, listed⟩, hitem, hlisted⟩ := hall fun i => decide (127.5 < color i)
  refine ⟨msg, ?_⟩
  have hthreshold : listed = threshold color := by
    refine Eq.trans hlisted (funext fun i => ?_)
    simp [threshold]
  exact hthreshold ▸ hitem

/-- A palette's colour over the thresholds is decoded as its message. -/
theorem decode_threshold {sqrt : ℚ → K} (hsqrt : StrictMonoOn sqrt (Set.Ici 0)) {mode : String}
    {color : Color ℚ} {msg : Int} (hclear : Clear 0 255 color)
    (hitem : (msg, threshold color) ∈ palette mode) : decode sqrt mode color = some msg := by
  refine decode_eq_of_nearest hsqrt hitem fun other hother hne => ?_
  simp only [threshold_eq_nearest]
  refine distSq_nearest_lt (by norm_num) hclear (fun i => ?_) fun heq => hne ?_
  · rcases palette_levels mode other hother i with hlo | hhi
    · exact Or.inl (by simp [hlo])
    · exact Or.inr (by simp [hhi])
  · refine palette_color_inj mode other hother _ hitem (funext fun i => ?_)
    rw [← threshold_eq_nearest] at heq
    exact_mod_cast congrFun heq i

theorem decode_binary {sqrt : ℚ → K} (hsqrt : StrictMonoOn sqrt (Set.Ici 0)) (color : Color ℚ) :
    decode sqrt "binary" color = some (if 382.5 < ∑ i, color i then 0 else 1) := by
  have hwhite : distance sqrt color ![255, 255, 255] < distance sqrt color ![0, 0, 0] ↔
      382.5 < ∑ i, color i := by
    have hends : (![255, 255, 255] : Color ℤ) = (fun _ => 255) ∧
        (![0, 0, 0] : Color ℤ) = fun _ => 0 := by decide
    have hsum := distSq_const_lt_iff (show (0 : ℚ) < 255 by norm_num) color
    rw [distance_lt_iff hsqrt, hends.1, hends.2]
    push_cast
    rw [hsum]
    norm_num
    constructor
    · intro h
      linarith
    · intro h
      linarith
  by_cases hbright : 382.5 < ∑ i, color i
  · rw [if_pos hbright]
    simp [decode, palette, binaryPalette, Search.step, hwhite.mpr hbright]
  · rw [if_neg hbright]
    have hnot := mt hwhite.mp hbright
    simp [decode, palette, binaryPalette, Search.step, hnot]

/-- **Threshold decoding**: with exact distances, `decode` decides by the thresholds, for every
colour, and recovers every message that `encode` accepts from noise below them. -/
theorem decode_thresholdDecoder {sqrt : ℚ → K} (hsqrt : StrictMonoOn sqrt (Set.Ici 0)) :
    ThresholdDecoder (decode sqrt) where
  octal mode color hmode hclear := by
    obtain ⟨msg, hitem⟩ := octal_listed color
    have hclear' : Clear 0 255 color := fun i h => hclear i (by linarith)
    have hpalette : palette mode = octalPalette := if_neg hmode
    rw [← hpalette] at hitem ⊢
    refine ⟨msg, decode_threshold hsqrt hclear' hitem, fun other => ⟨fun hother => ?_, ?_⟩⟩
    · exact congrArg Prod.fst (palette_color_inj mode _ hother _ hitem rfl)
    · rintro rfl
      exact hitem
  binary := decode_binary hsqrt
  tolerates mode msg sent color hencode hclose := by
    have hitem := encode_ok_mem hencode
    have hlevels : ∀ i, (sent i : ℚ) = 0 ∨ (sent i : ℚ) = 255 := fun i => by
      exact_mod_cast palette_levels mode _ hitem i
    have hnoise : ∀ i, |color i - sent i| < ((255 : ℚ) - 0) / 2 := fun i =>
      lt_of_lt_of_eq (hclose i) (by norm_num)
    obtain ⟨hclear, hnearest⟩ := nearest_of_close hlevels hnoise
    refine decode_threshold hsqrt hclear ?_
    have hthreshold : threshold color = sent := by
      funext i
      rw [← threshold_eq_nearest] at hnearest
      exact_mod_cast congrFun hnearest i
    rw [hthreshold]
    exact hitem

/-- With the real square root; a red dimmed and disturbed in all channels is still red. -/
theorem decode_thresholdDecoder_real :
    ThresholdDecoder (decode fun q => Real.sqrt q) ∧
      decode (fun q => Real.sqrt q) "octal" ![10.5, 120, 140] = some 2 := by
  have hsqrt : StrictMonoOn (fun q : ℚ => Real.sqrt q) (Set.Ici 0) := fun x hx y _ hxy =>
    Real.sqrt_lt_sqrt (Rat.cast_nonneg.mpr hx) (Rat.cast_lt.mpr hxy)
  have hdecoder := decode_thresholdDecoder hsqrt
  refine ⟨hdecoder, hdecoder.tolerates "octal" 2 ![0, 0, 255] _ rfl ?_⟩
  simp [Fin.forall_fin_succ, abs_lt]
  norm_num

end CampusNet.OpticalCommunication
