import DistributedChat.Resource.Avatar

/-!
# Thumbnails of avatars

`thumbnail` (`servers/resource/Avatar.cpp`) shrinks the centred square of an image by averaging
cells of pixels. Here its integers have the widths of the source: an operation whose result does not
fit, a read beyond the pixels and a division by zero have no result.

1. Each side of the square is cut into spans, whose ends do not decrease: `span_eq`, `bounds_within`.
2. All that is computed for a pixel has a result, an average: `channel_eq`, `average_between`.
3. What `avatar` encodes are these averages: `thumbnail_eq_pixels`.
4. Spans that are not shorter than a pixel of the thumbnail follow one another: `exists_span`,
   `span_unique`.
-/

namespace DistributedChat.Resource

open List

/-- A result that is not negative, in an integer with this many bits for it: 31 in an `int`. -/
def checked (bits n : ℕ) : Option ℕ := if n < 2 ^ bits then some n else none

namespace Image

variable (image : Image) (size : ℕ)

def side : ℕ := min image.width image.height

def left : ℕ := (image.width - image.side) / 2

def top : ℕ := (image.height - image.side) / 2

/-- `start + int(x * side / size)`. -/
def border (start x : ℕ) : Option ℕ := do
  let product ← checked 32 (x * image.side)
  if size = 0 then none
  else checked 31 (start + (← checked 31 (product / size)))

/-- `x0` and `x1`, from the left or the upper side of the square. -/
def span (start x : ℕ) : Option (ℕ × ℕ) := do
  let x0 ← image.border size start x
  let x1 ← image.border size start (x + 1)
  return (x0, max x1 (← checked 31 (x0 + 1)))

/-- The pixels, by column and row, of the two inner loops. -/
def pixels (xs ys : ℕ × ℕ) : List (ℕ × ℕ) :=
  (List.range' ys.1 (ys.2 - ys.1)).flatMap fun yy => (List.range' xs.1 (xs.2 - xs.1)).map fun xx =>
    (xx, yy)

def read (p : ℕ × ℕ) (k : ℕ) : Option UInt8 := do
  image.rgb[← checked 64 ((p.2 * image.width + p.1) * 3 + k)]?

/-- Channel `k` of the average over a cell. -/
def channel (xs ys : ℕ × ℕ) (k : ℕ) : Option UInt8 := do
  let sum ← (pixels xs ys).foldlM (fun sum p => do checked 64 (sum + (← image.read p k).toNat)) 0
  let area ← checked 31 ((xs.2 - xs.1) * (ys.2 - ys.1))
  if area = 0 then none else some (UInt8.ofNat (sum / area))

/-- The source pixels of pixel `x`, `y` of the thumbnail. -/
def cell (x y : ℕ) : Option (List (ℕ × ℕ)) := do
  return pixels (← image.span size image.left x) (← image.span size image.top y)

/-- The pixels that are encoded, by row, column and channel. -/
def thumbnail : Option (List (List (List UInt8))) := do
  let _ ← checked 32 (size * size * 3)
  (List.range size).mapM fun y => (List.range size).mapM fun x => do
    let xs ← image.span size image.left x
    let ys ← image.span size image.top y
    (List.range 3).mapM fun k => image.channel xs ys k

end Image

/-- `decode` returns no other images. -/
structure Image.Decoded (image : Image) : Prop where
  width : 1 ≤ image.width
  height : 1 ≤ image.height
  pixels : image.width * image.height ≤ 16000000
  rgb : image.rgb.length = image.width * image.height * 3

theorem checked_eq {bits n : ℕ} (h : n < 2 ^ bits) : checked bits n = some n := if_pos h

theorem mapM_eq_some {α β : Type} {f : α → Option β} {g : α → β} {l : List α}
    (h : ∀ a ∈ l, f a = some (g a)) :
    l.mapM f = some (l.map g) := by
  induction l with
  | nil => rfl
  | cons a l ih =>
    rw [mapM_cons, h a mem_cons_self, ih fun b hb => h b (mem_cons_of_mem a hb)]
    rfl

namespace Image

/-! ## Spans -/

section Spans

variable {image : Image} {size start x : ℕ}

theorem Decoded.bounds (h : image.Decoded) : 1 ≤ image.side ∧ image.side ≤ 4000 ∧
    image.left + image.side ≤ image.width ∧ image.top + image.side ≤ image.height ∧
    image.width ≤ 16000000 ∧ image.height ≤ 16000000 := by
  have hside : image.side * image.side ≤ 16000000 :=
    (Nat.mul_le_mul (min_le_left _ _) (min_le_right _ _)).trans h.pixels
  have hw : image.side ≤ image.width := min_le_left _ _
  have hh : image.side ≤ image.height := min_le_right _ _
  refine ⟨le_min h.width h.height, by nlinarith, ?_, ?_, ?_, ?_⟩
  · unfold left
    omega
  · unfold top
    omega
  · exact (Nat.le_mul_of_pos_right _ h.height).trans h.pixels
  · exact (Nat.le_mul_of_pos_left _ h.width).trans h.pixels

def cut (image : Image) (size x : ℕ) : ℕ := x * image.side / size

def bounds (image : Image) (size start x : ℕ) : ℕ × ℕ :=
  (start + image.cut size x, max (start + image.cut size (x + 1)) (start + image.cut size x + 1))

theorem cut_le (hx : x ≤ size) : image.cut size x ≤ image.side :=
  Nat.div_le_of_le_mul (Nat.mul_le_mul_right _ hx)

theorem cut_lt (hside : 0 < image.side) (hx : x < size) : image.cut size x < image.side :=
  Nat.div_lt_of_lt_mul (Nat.mul_lt_mul_of_pos_right hx hside)

theorem border_eq (hside : image.side ≤ 4000) (hstart : start + image.side < 2 ^ 31) (hx : x ≤ size)
    (hpos : 0 < size)
    (hsize : size ≤ 256) : image.border size start x = some (start + image.cut size x) := by
  have hcut : x * image.side / size ≤ image.side := cut_le hx
  have hproduct : x * image.side < 2 ^ 32 :=
    (Nat.mul_le_mul (hx.trans hsize) hside).trans_lt (by decide)
  unfold border
  rw [checked_eq hproduct, Option.bind_eq_bind, Option.bind_some, if_neg hpos.ne', checked_eq]
  · exact checked_eq (by omega)
  · omega

/-- **Each span** lies in the square and is not empty. -/
theorem span_eq (himage : image.Decoded) (hstart : start + image.side < 2 ^ 31) (hx : x < size)
    (hsize : size ≤ 256) :
    image.span size start x = some (image.bounds size start x) := by
  obtain ⟨hpos, hside, -⟩ := himage.bounds
  have hcut := cut_lt hpos hx
  unfold span bounds
  rw [border_eq hside hstart hx.le (by omega) hsize, border_eq hside hstart hx (by omega) hsize]
  simp only [Option.bind_eq_bind, Option.bind_some]
  rw [checked_eq (by omega)]
  rfl

theorem bounds_within (start : ℕ) (hside : 0 < image.side) (hx : x < size) :
    start ≤ (image.bounds size start x).1 ∧
    (image.bounds size start x).1 < (image.bounds size start x).2 ∧
    (image.bounds size start x).2 ≤ start + image.side := by
  have hcut := cut_lt hside hx
  have hnext : image.cut size (x + 1) ≤ image.side := cut_le hx
  unfold bounds
  dsimp only
  omega

/-- The cuts, as long as spans are not shorter than a pixel of the thumbnail. -/
theorem bounds_eq (hsize : 0 < size) (hlong : size ≤ image.side) :
    image.bounds size start x = (start + image.cut size x, start + image.cut size (x + 1)) := by
  have hstep : image.cut size x + 1 ≤ image.cut size (x + 1) := by
    unfold cut
    rw [Nat.add_mul, Nat.one_mul, ← Nat.add_div_right _ hsize]
    exact Nat.div_le_div_right (by omega)
  unfold bounds
  rw [max_eq_left (by omega)]

theorem cut_mono (image : Image) (size : ℕ) : Monotone (image.cut size) := fun _ _ h =>
  Nat.div_le_div_right (Nat.mul_le_mul_right _ h)

/-- The spans cover the side of the square, -/
theorem exists_span (size : ℕ) {n p : ℕ} (h : start ≤ p) (hp : p < start + image.cut size n) :
    ∃ x < n, start + image.cut size x ≤ p ∧ p < start + image.cut size (x + 1) := by
  induction n with
  | zero =>
    simp only [cut, Nat.zero_mul, Nat.zero_div] at hp
    omega
  | succ n ih =>
    by_cases hn : p < start + image.cut size n
    · obtain ⟨x, hx, hspan⟩ := ih hn
      exact ⟨x, hx.trans n.lt_succ_self, hspan⟩
    · exact ⟨n, n.lt_succ_self, not_lt.mp hn, hp⟩

/-- and do not overlap. -/
theorem span_unique {x' p : ℕ} (h : start + image.cut size x ≤ p)
    (h' : p < start + image.cut size (x' + 1)) :
    x ≤ x' := by
  by_contra hlt
  have hcut : image.cut size (x' + 1) ≤ image.cut size x := image.cut_mono size (by omega)
  omega

end Spans

/-! ## Averages -/

section Averages

variable {image : Image} {xs ys : ℕ × ℕ} {k : ℕ}

theorem mem_pixels {p : ℕ × ℕ} (hxs : xs.1 < xs.2) (hys : ys.1 < ys.2) :
    p ∈ pixels xs ys ↔ (xs.1 ≤ p.1 ∧ p.1 < xs.2) ∧ ys.1 ≤ p.2 ∧ p.2 < ys.2 := by
  obtain ⟨xx, yy⟩ := p
  simp only [pixels, mem_flatMap, mem_map, mem_range'_1, Prod.mk.injEq]
  constructor
  · rintro ⟨_, hy, _, hx, rfl, rfl⟩
    omega
  · rintro ⟨hx, hy⟩
    exact ⟨yy, by omega, xx, by omega, rfl, rfl⟩

theorem length_pixels (xs ys : ℕ × ℕ) : (pixels xs ys).length = (xs.2 - xs.1) * (ys.2 - ys.1) := by
  simp [pixels, Nat.mul_comm]

theorem read_eq (himage : image.Decoded) {p : ℕ × ℕ} (hx : p.1 < image.width)
    (hy : p.2 < image.height)
    (hk : k < 3) : ∃ v, image.read p k = some v := by
  have hrow : p.2 * image.width + p.1 < image.width * image.height := by nlinarith
  have hindex : (p.2 * image.width + p.1) * 3 + k < image.rgb.length := by
    rw [himage.rgb]
    omega
  have hpixels := himage.pixels
  unfold read
  rw [checked_eq (by omega)]
  exact ⟨_, List.getElem?_eq_getElem hindex⟩

theorem sum_eq {f : ℕ × ℕ → Option UInt8} {value : ℕ × ℕ → UInt8} {l : List (ℕ × ℕ)} {sum : ℕ}
    (h : ∀ p ∈ l, f p = some (value p)) (hsum : sum + 255 * l.length < 2 ^ 64) :
    l.foldlM (fun sum p => do checked 64 (sum + (← f p).toNat)) sum =
      some (sum + (l.map fun p => (value p).toNat).sum) := by
  induction l generalizing sum with
  | nil => rfl
  | cons p l ih =>
    have hbyte := (value p).toNat_lt
    rw [length_cons] at hsum
    have hstep : (do checked 64 (sum + (← f p).toNat)) = some (sum + (value p).toNat) := by
      rw [h p mem_cons_self]
      exact checked_eq (by omega)
    rw [foldlM_cons, hstep, Option.bind_eq_bind, Option.bind_some,
      ih (fun q hq => h q (mem_cons_of_mem p hq)) (by omega), map_cons, sum_cons, Nat.add_assoc]

/-- **An average lies between** two of the values. -/
theorem average_between {α : Type} {l : List α} (hl : l ≠ []) (value : α → ℕ) :
    (∃ p ∈ l, value p ≤ (l.map value).sum / l.length) ∧ ∃ p ∈ l,
    (l.map value).sum / l.length ≤ value p := by
  have hpos := length_pos_iff.mpr hl
  constructor
  · obtain ⟨p, hp, hlt⟩ :=
      exists_lt_of_sum_lt value (fun _ => (l.map value).sum / l.length + 1) (l := l) (by
      rw [map_const', sum_replicate_nat]
      exact Nat.lt_mul_div_succ _ hpos)
    exact ⟨p, hp, Nat.lt_succ_iff.mp hlt⟩
  · exact exists_le_of_sum_le hl (fun _ => (l.map value).sum / l.length) value (by
      rw [map_const', sum_replicate_nat]
      exact Nat.mul_div_le _ _)

/-- **A channel of a pixel** is an average of what the cell has there. -/
theorem channel_eq (himage : image.Decoded) (hxs : xs.1 < xs.2) (hys : ys.1 < ys.2)
    (hside : ys.2 - ys.1 ≤ 4000)
    (hwidth : xs.2 - xs.1 ≤ 4000) (hx : xs.2 ≤ image.width) (hy : ys.2 ≤ image.height)
    (hk : k < 3) :
    ∃ v, image.channel xs ys k = some v ∧
    (∃ p ∈ pixels xs ys, ∃ low, image.read p k = some low ∧ low ≤ v) ∧
      ∃ p ∈ pixels xs ys, ∃ high, image.read p k = some high ∧ v ≤ high := by
  let value p := (image.read p k).getD 0
  have hread : ∀ p ∈ pixels xs ys, image.read p k = some (value p) := by
    intro p hp
    rw [mem_pixels hxs hys] at hp
    obtain ⟨v, hv⟩ := read_eq himage (p := p) (by omega) (by omega) hk
    simp [value, hv]
  have harea : (xs.2 - xs.1) * (ys.2 - ys.1) ≤ 4000 * 4000 := Nat.mul_le_mul hwidth hside
  have hlength := length_pixels xs ys
  have hpos : 0 < (xs.2 - xs.1) * (ys.2 - ys.1) := Nat.mul_pos (by omega) (by omega)
  have hne : pixels xs ys ≠ [] := ne_nil_of_length_pos (hlength ▸ hpos)
  obtain ⟨⟨p, hp, hlow⟩, q, hq, hhigh⟩ := average_between hne fun p => (value p).toNat
  obtain ⟨average, haverage⟩ : ∃ n, n = ((pixels xs ys).map fun p => (value p).toNat).sum /
    (pixels xs ys).length := ⟨_, rfl⟩
  rw [← haverage] at hlow hhigh
  have hbyte : (UInt8.ofNat average).toNat = average :=
    UInt8.toNat_ofNat_of_lt' (hhigh.trans_lt (value q).toNat_lt)
  refine ⟨UInt8.ofNat average, ?_, ⟨p, hp, _, hread p hp, ?_⟩, q, hq, _, hread q hq, ?_⟩
  · unfold channel
    rw [sum_eq hread (by omega), checked_eq (by omega), haverage, hlength]
    simp only [Option.bind_eq_bind, Option.bind_some, Nat.zero_add, if_neg hpos.ne']
  · rwa [UInt8.le_iff_toNat_le, hbyte]
  · rwa [UInt8.le_iff_toNat_le, hbyte]

end Averages

/-! ## The pixels that are encoded -/

section Encoded

variable {image : Image} {size x y k : ℕ}

theorem read_eq_getD (himage : image.Decoded) {p : ℕ × ℕ} (hx : p.1 < image.width)
    (hy : p.2 < image.height) (hk : k < 3) :
    image.read p k = some (image.rgb.getD ((p.2 * image.width + p.1) * 3 + k) 0) := by
  obtain ⟨v, hv⟩ := read_eq himage hx hy hk
  rw [hv]
  unfold read at hv
  obtain ⟨i, hi, hget⟩ := Option.bind_eq_some_iff.mp hv
  unfold checked at hi
  split at hi
  · cases hi
    rw [List.getD_eq_getElem?_getD, hget, Option.getD_some]
  · cases hi

theorem sum_pixels (xs ys : ℕ × ℕ) (f : ℕ × ℕ → ℕ) :
    ((pixels xs ys).map f).sum = ((List.range' ys.1 (ys.2 - ys.1)).map fun yy =>
      ((List.range' xs.1 (xs.2 - xs.1)).map fun xx => f (xx, yy)).sum).sum := by
  simp only [pixels, flatMap_def, map_flatten, map_map, sum_flatten, Function.comp_def]

/-- No width is too small for the average that `sample` takes in numbers without a bound. -/
theorem channel_eq_sample (himage : image.Decoded) (hx : x < size) (hy : y < size) (hk : k < 3) :
    image.channel (image.bounds size image.left x) (image.bounds size image.top y) k =
      some (sample image size y x k) := by
  obtain ⟨hpos, hside, hleft, htop, -⟩ := himage.bounds
  obtain ⟨hx0, hxs, hx1⟩ := bounds_within image.left hpos hx
  obtain ⟨hy0, hys, hy1⟩ := bounds_within image.top hpos hy
  have hread : ∀ p ∈ pixels (image.bounds size image.left x) (image.bounds size image.top y),
      image.read p k = some (image.rgb.getD ((p.2 * image.width + p.1) * 3 + k) 0) := by
    intro p hp
    rw [mem_pixels hxs hys] at hp
    exact read_eq_getD himage (by omega) (by omega) hk
  have harea := Nat.mul_le_mul
    (show (image.bounds size image.left x).2 - (image.bounds size image.left x).1 ≤ 4000 by omega)
    (show (image.bounds size image.top y).2 - (image.bounds size image.top y).1 ≤ 4000 by omega)
  have hlength := length_pixels (image.bounds size image.left x) (image.bounds size image.top y)
  have hne := (Nat.mul_pos (Nat.sub_pos_of_lt hxs) (Nat.sub_pos_of_lt hys)).ne'
  unfold channel
  rw [sum_eq hread (by omega), checked_eq (by omega), sum_pixels]
  simp only [Option.bind_eq_bind, Option.bind_some, Nat.zero_add, if_neg hne]
  rfl

/-- **The two embeddings agree**: what `avatar` has encoded is what is computed here with the widths
of the source. -/
theorem thumbnail_eq_pixels (himage : image.Decoded) (hsize : size ≤ 256) :
    (image.thumbnail size).map (fun rows => rows.flatMap List.flatten) =
      some (Resource.pixels image size) := by
  obtain ⟨-, -, hleft, htop, hwidth, hheight⟩ := himage.bounds
  have hrows : image.thumbnail size = some ((List.range size).map fun y =>
      (List.range size).map fun x => (List.range 3).map fun k => sample image size y x k) := by
    unfold thumbnail
    rw [checked_eq ((Nat.mul_le_mul_right 3 (Nat.mul_le_mul hsize hsize)).trans_lt (by decide))]
    show (List.range size).mapM _ = _
    refine mapM_eq_some fun y hy => mapM_eq_some fun x hx => ?_
    rw [mem_range] at hx hy
    rw [span_eq himage (by omega) hx hsize, span_eq himage (by omega) hy hsize]
    exact mapM_eq_some fun k hk => channel_eq_sample himage hx hy (mem_range.mp hk)
  rw [hrows, Option.map_some]
  simp only [Resource.pixels, flatMap_def, map_map, Function.comp_def]

end Encoded

/-- **Thumbnails sample the centred square.** For every image that `decode` returns and every size
of a thumbnail:

* everything computed has a result: no overflow, no read outside the image, no division by zero,
* each channel of each pixel lies between two values it averages,
* if the square is not smaller than the thumbnail, the cells are not empty, do not overlap, and
  cover the square. -/
theorem thumbnail_samples (image : Image) (himage : image.Decoded) (size : ℕ)
    (hsize : size ∈ [64, 128, 256]) :
    ∃ (rows : List (List (List UInt8))) (cell : ℕ → ℕ → List (ℕ × ℕ)),
      image.thumbnail size = some rows ∧
      (∀ x < size, ∀ y < size, image.cell size x y = some (cell x y) ∧
        (∀ p ∈ cell x y, p.1 < image.width ∧ p.2 < image.height) ∧
        ∀ k < 3, ∃ v, ((rows[y]?.bind fun row => row[x]?).bind fun pixel => pixel[k]?) = some v ∧
          (∃ p ∈ cell x y, ∃ low, image.read p k = some low ∧ low ≤ v) ∧
          ∃ p ∈ cell x y, ∃ high, image.read p k = some high ∧ v ≤ high) ∧
      (size ≤ image.side →
        (∀ x < size, ∀ y < size, cell x y ≠ []) ∧
        (∀ x < size, ∀ y < size, ∀ x' < size, ∀ y' < size, ∀ p, p ∈ cell x y → p ∈ cell x' y' → x =
          x' ∧ y = y') ∧
        ∀ p, (∃ x < size, ∃ y < size, p ∈ cell x y) ↔
          (image.left ≤ p.1 ∧ p.1 < image.left + image.side) ∧
            image.top ≤ p.2 ∧ p.2 < image.top + image.side) := by
  obtain ⟨hpos, hside, hleft, htop, hwidth, hheight⟩ := himage.bounds
  have hsize : 0 < size ∧ size ≤ 256 := by
    simp only [mem_cons, not_mem_nil, or_false] at hsize
    omega
  have hx : ∀ x < size, image.span size image.left x = some (image.bounds size image.left x) :=
    fun x hx =>
    span_eq himage (by omega) hx hsize.2
  have hy : ∀ y < size, image.span size image.top y = some (image.bounds size image.top y) :=
    fun y hy =>
    span_eq himage (by omega) hy hsize.2
  have hxs : ∀ x < size, _ := fun x hx => bounds_within image.left hpos hx
  have hys : ∀ y < size, _ := fun y hy => bounds_within image.top hpos hy
  have hchannel :=
    fun x (hx : x < size) y (hy : y < size) k hk => channel_eq (k := k) himage (hxs x hx).2.1
    (hys y hy).2.1 (by have := hys y hy; omega) (by have := hxs x hx; omega)
      ((hxs x hx).2.2.trans hleft)
    ((hys y hy).2.2.trans htop) hk
  refine ⟨(List.range size).map fun y => (List.range size).map fun x => (List.range 3).map fun k =>
      (image.channel (image.bounds size image.left x) (image.bounds size image.top y) k).getD 0,
    fun x y => pixels (image.bounds size image.left x) (image.bounds size image.top y), ?_,
    fun x hx' y hy' => ⟨?_, fun p hp => ?_, fun k hk => ?_⟩, fun hlong => ⟨fun x hx' y hy' => ?_,
      fun x hx' y hy' x' hx'' y' hy'' p hp hp' => ?_, fun p => ⟨?_, fun ⟨hp, hp'⟩ => ?_⟩⟩⟩
  · unfold thumbnail
    rw [checked_eq ((Nat.mul_le_mul_right 3 (Nat.mul_le_mul hsize.2 hsize.2)).trans_lt (by decide))]
    show (List.range size).mapM _ = _
    refine mapM_eq_some fun y hy' => mapM_eq_some fun x hx' => ?_
    rw [mem_range] at hx' hy'
    rw [hx x hx', hy y hy']
    refine mapM_eq_some fun k hk => ?_
    obtain ⟨v, hv, -⟩ := hchannel x hx' y hy' k (mem_range.mp hk)
    simp only [hv, Option.getD_some]
  · simp only [cell, hx x hx', hy y hy', Option.bind_eq_bind, Option.bind_some]
    rfl
  · have := hxs x hx'
    have := hys y hy'
    rw [mem_pixels (hxs x hx').2.1 (hys y hy').2.1] at hp
    omega
  · obtain ⟨v, hv, hbetween⟩ := hchannel x hx' y hy' k hk
    refine ⟨v, ?_, hbetween⟩
    simp [hx', hy', hk, hv]
  · rw [← length_pos_iff, length_pixels]
    have := hxs x hx'
    have := hys y hy'
    exact Nat.mul_pos (by omega) (by omega)
  · rw [mem_pixels (hxs x hx').2.1 (hys y hy').2.1] at hp
    rw [mem_pixels (hxs x' hx'').2.1 (hys y' hy'').2.1] at hp'
    simp only [bounds_eq hsize.1 hlong] at hp hp'
    exact ⟨(span_unique hp.1.1 hp'.1.2).antisymm (span_unique hp'.1.1 hp.1.2),
      (span_unique hp.2.1 hp'.2.2).antisymm (span_unique hp'.2.1 hp.2.2)⟩
  · rintro ⟨x, hx', y, hy', hp⟩
    have := hxs x hx'
    have := hys y hy'
    rw [mem_pixels (hxs x hx').2.1 (hys y hy').2.1] at hp
    omega
  · have hlast : image.cut size size = image.side := Nat.mul_div_cancel_left _ hsize.1
    rw [← hlast] at hp hp'
    obtain ⟨x, hx', hspan⟩ := exists_span size hp.1 hp.2
    obtain ⟨y, hy', hspan'⟩ := exists_span size hp'.1 hp'.2
    refine ⟨x, hx', y, hy', ?_⟩
    rw [mem_pixels (hxs x hx').2.1 (hys y hy').2.1]
    simp only [bounds_eq hsize.1 hlong]
    exact ⟨hspan, hspan'⟩

theorem wide_image_sampled : ∃ (rows : List (List (List UInt8))) (cell : ℕ → ℕ → List (ℕ × ℕ)),
    (⟨130, 128, replicate 49920 7⟩ : Image).thumbnail 64 = some rows ∧
    ∀ x < 64, ∀ y < 64, cell x y ≠ [] := by
  have hdecoded : (⟨130, 128, replicate 49920 7⟩ : Image).Decoded :=
    ⟨by decide, by decide, by decide, length_replicate⟩
  obtain ⟨rows, cell, hrows, -, hcells⟩ := thumbnail_samples _ hdecoded 64 (by decide)
  exact ⟨rows, cell, hrows, (hcells (by decide)).1⟩

end Image

end DistributedChat.Resource
