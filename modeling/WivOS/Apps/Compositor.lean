/-
# Drawing the windows

`graphics_fill` and `graphics_draw_sprite` of `libs/wivc/main.c`, and `compositor_add_window`, `redraw_windows` and
the loop over the requests of `apps/test3/compositor.c`, with the widths and conversions of C; a signed subtraction
that overflows wraps around. The frame buffer is a memory of bytes with the log of its stores.

A canvas is what the pixels should be (`Shows`); the last window that has a pixel is the one that is seen
(`composite_eq`). The clipping of both axes is one function (`clip_spans`).
-/
import Mathlib.Algebra.Group.Int.Defs
import WivOS.Lib.Loop
import WivOS.Lib.Machine
import WivOS.Lib.Stack

namespace WivOS.Compositor

open ByteMem List Machine
open Loop (countUp countUp_spec)

abbrev U32 := BitVec 32
abbrev Size := BitVec 64

/-! ### `libs/wivc` -/

inductive SpriteAlpha where
  | alphaOpaque
  | alphaEmbedded
deriving DecidableEq

structure Sprite where
  width : U32
  height : U32
  buffer : ℕ → U32
  alpha : SpriteAlpha

structure FbContext where
  width : U32
  height : U32
  depth : BitVec 16
  stride : U32

/-- The offset of `CTX_PIX` in the buffer. -/
def ctxPix (ctx : FbContext) (x y : Size) : Size := ctx.stride.setWidth 64 * y + x * (ctx.depth.setWidth 64 / 8)

def putPixel (ctx : FbContext) (x y : Size) (color : U32) (t : Trace) :
    Trace := t.put (ctxPix ctx x y).toNat (toBytes 4 color.toNat)

def Sprite.pixel (sprite : Sprite) (x y : Size) : U32 := sprite.buffer (sprite.width.setWidth 64 * y + x).toNat

def graphicsFill (fuel : ℕ) (ctx : FbContext) (color : U32) (t : Trace) : Option Trace :=
  countUp (fun y => y < ctx.height.setWidth 64) (fun y t =>
    countUp (fun x => x < ctx.width.setWidth 64) (fun x t => some (putPixel ctx x y color t)) fuel 0 t) fuel 0 t

def maxZero (a : U32) : U32 := if (0 : U32).slt a then a else 0

def minU32 (a b : U32) : U32 := if a < b then a else b

/-- Where the loop over an axis starts, for a position and the first coordinate to draw. -/
def clipStart (x left : U32) : Size := (if x.slt left then left - x else 0).signExtend 64

/-- The condition of the loop, for a position, a size and the last coordinate to draw. -/
def clipCond (x width right : U32) (cx : Size) :
    Bool := cx < width.setWidth 64 && x.signExtend 64 + cx ≤ right.signExtend 64

def graphicsDrawSprite (fuel : ℕ) (ctx : FbContext) (sprite : Sprite) (x y : U32) (t : Trace) : Option Trace :=
  let left := maxZero x
  let top := maxZero y
  let right := minU32 (x + sprite.width) (ctx.width - 1)
  let bottom := minU32 (y + sprite.height) (ctx.height - 1)
  match sprite.alpha with
  | .alphaOpaque =>
    countUp (clipCond y sprite.height bottom) (fun cy t =>
      countUp (clipCond x sprite.width right) (fun cx t =>
        some (putPixel ctx (x.signExtend 64 + cx) (y.signExtend 64 + cy) (sprite.pixel cx cy ||| 0xFF000000) t))
        fuel (clipStart x left) t)
      fuel (clipStart y top) t
  | .alphaEmbedded => some t

/-! ### The compositor -/

structure Window where
  x : U32
  y : U32
  sprite : Sprite
  id : ℕ

/-- The children of the root of `window_tree`, and `windowIdAllocator`: a window that was added later has a
greater number. -/
structure WindowTree where
  windows : List Window
  windowIdAllocator : ℕ
  ordered : (windows.map Window.id).Pairwise (· < ·)
  allocated : ∀ w ∈ windows, w.id < windowIdAllocator

def WindowTree.empty : WindowTree := ⟨[], 1, List.Pairwise.nil, fun _ h => by cases h⟩

/-- `compositor_add_window`: it becomes the last child of the root. -/
def compositorAddWindow (c : WindowTree) (window : Window) : WindowTree where
  windows := c.windows ++ [{ window with id := c.windowIdAllocator }]
  windowIdAllocator := c.windowIdAllocator + 1
  ordered := by
    rw [map_append]
    refine pairwise_append.mpr ⟨c.ordered, pairwise_singleton _ _, fun a ha b hb => ?_⟩
    obtain ⟨w, hw, rfl⟩ := mem_map.mp ha
    rw [mem_singleton.mp hb]
    exact c.allocated w hw
  allocated := by
    intro w hw
    rcases mem_append.mp hw with hw | hw
    · exact Nat.lt_succ_of_lt (c.allocated w hw)
    · rw [mem_singleton.mp hw]
      exact Nat.lt_succ_self _

def Window.changed (id : ℕ) (f : Window → Window) (w : Window) : Window := if w.id = id then { f w with id } else w

lemma Window.changed_id (id : ℕ) (f : Window → Window) (w : Window) : (w.changed id f).id = w.id := by
  rw [changed]
  split_ifs with h
  exacts [h.symm, rfl]

def WindowTree.change (c : WindowTree) (id : ℕ) (f : Window → Window) : WindowTree where
  windows := c.windows.map (.changed id f)
  windowIdAllocator := c.windowIdAllocator
  ordered := by
    have hid : Window.id ∘ Window.changed id f = Window.id := funext (Window.changed_id id f)
    rw [map_map, hid]
    exact c.ordered
  allocated := by
    intro w hw
    obtain ⟨v, hv, rfl⟩ := mem_map.mp hw
    rw [Window.changed_id]
    exact c.allocated v hv

/-- `redraw_windows`, up to where the frame buffer is shown. -/
def redrawWindows (fuel : ℕ) (ctx : FbContext) (c : WindowTree) (t : Trace) : Option Trace :=
  (graphicsFill fuel ctx 0xFF5371A6 t).bind fun t =>
    run (fun t window => graphicsDrawSprite fuel ctx window.sprite window.x window.y t) t c.windows

/-- The requests of the compositor's clients. To create a window, `shm` is the buffer of `shmSize width height` bytes that
`shm_open` finds. -/
inductive Request where
  | createWindow (width height : U32) (shm : Option (ℕ → U32))
  /-- No request: the client stores into the shared memory of its window. -/
  | paint (id : ℕ) (buffer : ℕ → U32)
  | windowDraw (id : ℕ)
  | windowMove (id : ℕ) (x y : U32)

structure Server where
  windowTree : WindowTree
  fb : Trace
  /-- A window has no buffer, or one that is too short for its pixels. -/
  unbacked : Bool

/-- A frame buffer as `graphics_init_fb_fs` makes it, of a width for which the stride fits. -/
structure FbContext.Ok (ctx : FbContext) : Prop where
  width_pos : 0 < ctx.width.toNat
  width_lt : ctx.width.toNat < 2 ^ 31
  height_pos : 0 < ctx.height.toNat
  height_lt : ctx.height.toNat < 2 ^ 31
  depth : ctx.depth = 32
  stride : ctx.stride.toNat = 4 * ctx.width.toNat

def FbContext.offset (ctx : FbContext) (px py : ℕ) : ℕ := ctx.stride.toNat * py + 4 * px

def Shows (ctx : FbContext) (t : Trace) (canvas : ℕ → ℕ → U32) : Prop :=
  ∀ px < ctx.width.toNat, ∀ py < ctx.height.toNat, load t.mem (ctx.offset px py) 4 = (canvas px py).toNat

def PixelStores (ctx : FbContext) (t t' : Trace) : Prop :=
  ∃ new, t'.stores = new ++ t.stores ∧
    ∀ w ∈ new, ∃ px < ctx.width.toNat, ∃ py < ctx.height.toNat, w = (ctx.offset px py, 4)

def Window.Has (w : Window) (px py : ℕ) : Prop :=
  (w.x.toInt ≤ px ∧ px < w.x.toInt + w.sprite.width.toNat) ∧ w.y.toInt ≤ py ∧ py < w.y.toInt + w.sprite.height.toNat

instance (w : Window) (px py : ℕ) : Decidable (w.Has px py) := inferInstanceAs (Decidable (_ ∧ _))

def Window.color (w : Window) (px py : ℕ) : U32 :=
  w.sprite.buffer (w.sprite.width.toNat * (py - w.y.toInt).toNat + (px - w.x.toInt).toNat) ||| 0xFF000000

def Window.paint (canvas : ℕ → ℕ → U32) (w : Window) (px py : ℕ) :
    U32 := if w.Has px py then w.color px py else canvas px py

def composite (windows : List Window) : ℕ → ℕ → U32 := windows.foldl Window.paint fun _ _ => 0xFF5371A6

/-- A window whose sprite is opaque and of sizes that fit an `int32_t`. -/
structure Window.Ok (w : Window) : Prop where
  alpha : w.sprite.alpha = .alphaOpaque
  width : w.sprite.width.toNat < 2 ^ 31
  height : w.sprite.height.toNat < 2 ^ 31

variable {fuel c : ℕ} {offset : ℤ} {w : Window}

section

variable {ctx : FbContext} {t t' t'' : Trace} {canvas : ℕ → ℕ → U32} {x y : Size} {px py : ℕ} {xoffset yoffset : ℤ}
  {cond : Size → Bool} {pos : Size → Size} {start : Size}

/-! ### One pixel -/

lemma PixelStores.refl (ctx : FbContext) (t : Trace) : PixelStores ctx t t := ⟨[], rfl, fun _ h => by cases h⟩

lemma PixelStores.trans (h : PixelStores ctx t t') (h' : PixelStores ctx t' t'') : PixelStores ctx t t'' := by
  obtain ⟨new, hnew, hin⟩ := h
  obtain ⟨new', hnew', hin'⟩ := h'
  refine ⟨new' ++ new, by rw [hnew', hnew, append_assoc], fun w hw => ?_⟩
  rcases mem_append.mp hw with hw | hw
  · exact hin' w hw
  · exact hin w hw

lemma ctxPix_toNat (hctx : ctx.Ok) (hx : x.toNat < ctx.width.toNat) (hy : y.toNat < ctx.height.toNat) :
    (ctxPix ctx x y).toNat = ctx.offset x.toNat y.toNat := by
  have hw := hctx.width_lt
  have hh := hctx.height_lt
  have hstride := ctx.stride.isLt
  have hrow : ctx.stride.toNat * y.toNat ≤ 2 ^ 32 * 2 ^ 31 := Nat.mul_le_mul (by omega) (by omega)
  rw [ctxPix, FbContext.offset, hctx.depth, show (BitVec.setWidth 64 (32 : BitVec 16) / 8 : Size) =
    4 by decide, BitVec.toNat_add, BitVec.toNat_mul, BitVec.toNat_mul, BitVec.toNat_setWidth_of_le (by decide),
    show (4 : Size).toNat = 4 by rfl]
  rw [Nat.mod_eq_of_lt (show ctx.stride.toNat * y.toNat < 2 ^ 64 by omega)]
  omega

lemma offset_apart (hctx : ctx.Ok) {a b : ℕ} (ha : a < ctx.width.toNat) (hpx : px < ctx.width.toNat)
    (hne : ¬ (a = px ∧ b = py)) : ctx.offset a b + 4 ≤ ctx.offset px py ∨ ctx.offset px py + 4 ≤ ctx.offset a b := by
  rw [FbContext.offset, FbContext.offset, hctx.stride]
  rcases Nat.lt_trichotomy b py with hlt | rfl | hlt
  · have := Nat.mul_le_mul_left (4 * ctx.width.toNat) (Nat.succ_le_of_lt hlt)
    rw [Nat.mul_succ] at this
    omega
  · omega
  · have := Nat.mul_le_mul_left (4 * ctx.width.toNat) (Nat.succ_le_of_lt hlt)
    rw [Nat.mul_succ] at this
    omega

lemma shows_mem (ctx : FbContext) (t : Trace) :
    Shows ctx t fun px py => BitVec.ofNat 32 (load t.mem (ctx.offset px py) 4) := by
  intro px _ py _
  rw [BitVec.toNat_ofNat]
  exact (Nat.mod_eq_of_lt load_lt).symm

lemma Shows.congr {canvas' : ℕ → ℕ → U32} (h : Shows ctx t canvas)
    (hsame : ∀ px < ctx.width.toNat, ∀ py < ctx.height.toNat, canvas' px py = canvas px py) : Shows ctx t canvas' := by
  intro px hpx py hpy
  rw [hsame px hpx py hpy]
  exact h px hpx py hpy

lemma putPixel_shows (hctx : ctx.Ok) (hx : x.toNat < ctx.width.toNat) (hy : y.toNat < ctx.height.toNat) (color : U32)
    (h : Shows ctx t canvas) : PixelStores ctx t (putPixel ctx x y color t) ∧
      Shows ctx (putPixel ctx x y color t) (fun px py => if px = x.toNat ∧
        py = y.toNat then color else canvas px py) := by
  have hlength : (toBytes 4 color.toNat).length = 4 := length_toBytes 4 _
  rw [putPixel, ctxPix_toNat hctx hx hy]
  refine ⟨⟨[(ctx.offset x.toNat y.toNat, 4)], ?_, fun w hw => ⟨x.toNat, hx, y.toNat, hy, mem_singleton.mp hw⟩⟩, ?_⟩
  · rw [Trace.put, hlength]
    rfl
  · intro a ha b hb
    dsimp only
    by_cases hsame : a = x.toNat ∧ b = y.toNat
    · rw [if_pos hsame, hsame.1, hsame.2]
      exact load_store color.isLt
    · rw [if_neg hsame, ← h a ha b hb]
      have hapart := offset_apart hctx ha hx hsame
      refine load_congr fun i hi => store_outside ?_
      omega

/-! ### Rows and rectangles -/

/-- A loop over an axis of the screen: the counters from `start` up to `stop`, at coordinates from
`offset + start` on, all of them on the screen. -/
structure Spans (limit : ℕ) (start : Size) (cond : Size → Bool) (pos : Size → Size) (offset : ℤ) (stop : ℕ) : Prop where
  le : start.toNat ≤ stop
  lt : stop < start.toNat + 2 ^ 31
  running : ∀ c, start.toNat ≤ c → c < stop → cond (BitVec.ofNat 64 c) = true
  stops : cond (BitVec.ofNat 64 stop) = false
  pos : ∀ c, start.toNat ≤ c → c < stop → ((pos (BitVec.ofNat 64 c)).toNat : ℤ) = offset + c ∧ offset + c < limit

lemma countUp_shows {limit stop : ℕ}
    (hspans : Spans limit start cond pos offset stop) (hfuel : 2 ^ 31 ≤ fuel) (body : Size → Trace → Option Trace)
    (after : ℕ → ℕ → ℕ → U32) (hbody : ∀ c t, start.toNat ≤ c → c < stop → Shows ctx t (after c) → ∃ t',
    body (BitVec.ofNat 64 c) t = some t' ∧ PixelStores ctx t t' ∧ Shows ctx t' (after (c + 1)))
    (h : Shows ctx t (after start.toNat)) :
    ∃ t', countUp cond body fuel start t = some t' ∧ PixelStores ctx t t' ∧ Shows ctx t' (after stop) := by
  have hlt := hspans.lt
  have hloop := countUp_spec body (fun c t' => PixelStores ctx t t' ∧
    Shows ctx t' (after c)) hspans.running hspans.stops
    (fun c t1 hfirst hlt ⟨hstores, hshows⟩ => by
      obtain ⟨t2, hrun, hstores', hshows'⟩ := hbody c t1 hfirst hlt hshows
      exact ⟨t2, hrun, hstores.trans hstores', hshows'⟩)
    fuel start.toNat t (Nat.le_refl _) hspans.le (by omega) ⟨PixelStores.refl ctx t, h⟩
  rw [show BitVec.ofNat 64 start.toNat = start by simp] at hloop
  exact hloop

def rowPainted (canvas : ℕ → ℕ → U32) (color : Size → U32) (offset : ℤ) (first stop y px py : ℕ) : U32 :=
  if py = y ∧ offset + first ≤ px ∧ px < offset + stop then color
    (BitVec.ofNat 64 (px - offset).toNat) else canvas px py

lemma rowPainted_succ {color : Size → U32} {first x y : ℕ} (hx : (x : ℤ) = offset + c) (hfirst : first ≤ c)
    (px py : ℕ) : rowPainted canvas color offset first (c + 1) y px py =
      if px = x ∧ py = y then color (BitVec.ofNat 64 c) else rowPainted canvas color offset first c y px py := by
  rw [rowPainted, rowPainted]
  by_cases hpixel : px = x ∧ py = y
  · have hcounter : (px - offset).toNat = c := by omega
    rw [if_pos hpixel, if_pos (by omega), hcounter]
  · rw [if_neg hpixel]
    exact if_congr (by omega) rfl rfl

lemma paintRow_spec (hctx : ctx.Ok) {stop : ℕ}
    (hspans : Spans ctx.width.toNat start cond pos offset stop) (hy : y.toNat < ctx.height.toNat) (color : Size → U32)
    (hfuel : 2 ^ 31 ≤ fuel) (h : Shows ctx t canvas) :
    ∃ t', countUp cond (fun cx t => some (putPixel ctx (pos cx) y (color cx) t)) fuel start t = some t' ∧
      PixelStores ctx t t' ∧ Shows ctx t' (rowPainted canvas color offset start.toNat stop y.toNat) := by
  refine countUp_shows hspans hfuel _ (fun c => rowPainted canvas color offset start.toNat c y.toNat)
    (fun c t1 hfirst hlt hshows => ?_)
    (h.congr fun px _ py _ => if_neg (by omega))
  obtain ⟨hpos, hlimit⟩ := hspans.pos c hfirst hlt
  have hx : (pos (BitVec.ofNat 64 c)).toNat < ctx.width.toNat := by omega
  obtain ⟨hstores, hshows'⟩ := putPixel_shows hctx hx hy (color (BitVec.ofNat 64 c)) hshows
  exact ⟨_, rfl, hstores, hshows'.congr fun px _ py _ => rowPainted_succ hpos hfirst px py⟩

def rectPainted (canvas : ℕ → ℕ → U32) (color : Size → Size → U32) (xoffset yoffset : ℤ)
    (xfirst xstop yfirst ystop px py : ℕ) : U32 :=
  if (yoffset + yfirst ≤ py ∧ py < yoffset + ystop) ∧ xoffset + xfirst ≤ px ∧ px < xoffset + xstop then
    color (BitVec.ofNat 64 (px - xoffset).toNat) (BitVec.ofNat 64 (py - yoffset).toNat)
  else canvas px py

lemma rectPainted_succ {color : Size → Size → U32} {xfirst xstop yfirst y : ℕ}
    (hy : (y : ℤ) = yoffset + c) (hfirst : yfirst ≤ c) (px py : ℕ) :
    rectPainted canvas color xoffset yoffset xfirst xstop yfirst (c + 1) px py =
      rowPainted (rectPainted canvas color xoffset yoffset xfirst xstop yfirst c)
        (fun cx => color cx (BitVec.ofNat 64 c)) xoffset xfirst xstop y px py := by
  rw [rectPainted, rowPainted, rectPainted]
  by_cases hrow : py = y ∧ xoffset + xfirst ≤ px ∧ px < xoffset + xstop
  · have hcounter : (py - yoffset).toNat = c := by omega
    rw [if_pos hrow, if_pos (by omega), hcounter]
  · rw [if_neg hrow]
    exact if_congr (by omega) rfl rfl

lemma paint_spec (hctx : ctx.Ok) {xstart ystart : Size} {xcond ycond : Size → Bool} {xpos ypos : Size → Size}
    {xstop ystop : ℕ} (hx : Spans ctx.width.toNat xstart xcond xpos xoffset xstop)
    (hy : Spans ctx.height.toNat ystart ycond ypos yoffset ystop) (color : Size → Size → U32) (hfuel : 2 ^ 31 ≤ fuel)
    (h : Shows ctx t canvas) : ∃ t', countUp ycond (fun cy t => countUp xcond
      (fun cx t => some (putPixel ctx (xpos cx) (ypos cy) (color cx cy) t)) fuel xstart t)
        fuel ystart t = some t' ∧ PixelStores ctx t t' ∧
      Shows ctx t' (rectPainted canvas color xoffset yoffset xstart.toNat xstop ystart.toNat ystop) := by
  refine countUp_shows hy hfuel _ (fun c => rectPainted canvas color xoffset yoffset xstart.toNat xstop ystart.toNat c)
    (fun c t1 hfirst hlt hshows => ?_) (h.congr fun px _ py _ => if_neg (by omega))
  obtain ⟨hpos, hlimit⟩ := hy.pos c hfirst hlt
  have hrow : (ypos (BitVec.ofNat 64 c)).toNat < ctx.height.toNat := by omega
  obtain ⟨t2, hrun, hstores, hshows'⟩ := paintRow_spec hctx hx hrow
    (fun cx => color cx (BitVec.ofNat 64 c)) hfuel hshows
  exact ⟨t2, hrun, hstores, hshows'.congr fun px _ py _ => rectPainted_succ hpos hfirst px py⟩

end

/-! ### Clipping -/

section

variable {x width limit : U32}

lemma counter_toNat (h : c < 2 ^ 64) : (BitVec.ofNat 64 c).toNat = c := by
  rw [BitVec.toNat_ofNat, Nat.mod_eq_of_lt h]

lemma toInt_eq (x : U32) : x.toInt = if x.toNat < 2 ^ 31 then (x.toNat : ℤ) else x.toNat - 2 ^ 32 := by
  rw [BitVec.toInt_eq_toNat_cond]
  exact if_congr (by omega) rfl rfl

lemma toNat_signExtend (x : U32) :
    (x.signExtend 64).toNat = if x.toNat < 2 ^ 31 then x.toNat else x.toNat + (2 ^ 64 - 2 ^ 32) := by
  have hlt := x.isLt
  rw [BitVec.toNat_signExtend, BitVec.msb_eq_decide, BitVec.toNat_setWidth]
  by_cases h : x.toNat < 2 ^ 31
  · rw [if_pos h, if_neg (by simpa using h)]
    omega
  · rw [if_neg h, if_pos (by simpa using h)]
    omega

lemma clipStart_toNat (x : U32) : (clipStart x (maxZero x)).toNat =
    if x.toNat < 2 ^ 31 then 0 else if x.toNat = 2 ^ 31 then 2 ^ 64 - 2 ^ 31 else 2 ^ 32 - x.toNat := by
  have hlt := x.isLt
  have hint := toInt_eq x
  by_cases h : x.toNat < 2 ^ 31
  · rw [if_pos h] at hint ⊢
    have hleft : ¬ x.slt (maxZero x) = true := by
      rw [BitVec.slt_eq_decide, decide_eq_true_eq, maxZero, BitVec.slt_eq_decide]
      split_ifs with hpos
      · omega
      · show ¬ x.toInt < 0
        omega
    rw [clipStart, if_neg hleft]
    rfl
  · rw [if_neg h] at hint ⊢
    have hzero : maxZero x = 0 := if_neg (by rw [BitVec.slt_eq_decide, decide_eq_true_eq]; show ¬ 0 < x.toInt; omega)
    have hleft : x.slt (maxZero x) = true := by
      rw [BitVec.slt_eq_decide, decide_eq_true_eq, hzero]
      show x.toInt < 0
      omega
    have hsub : (0 - x).toNat = 2 ^ 32 - x.toNat := by
      rw [BitVec.toNat_sub, show (0 : U32).toNat = 0 by rfl]
      omega
    rw [clipStart, if_pos hleft, hzero, toNat_signExtend, hsub]
    split_ifs <;> omega

lemma column_toNat (hc : c < 2 ^ 33) (hscreen : 0 ≤ x.toInt + c) :
    ((x.signExtend 64 + BitVec.ofNat 64 c).toNat : ℤ) = x.toInt + c := by
  have hlt := x.isLt
  have hint := toInt_eq x
  rw [BitVec.toNat_add, BitVec.toNat_ofNat, toNat_signExtend]
  split_ifs at hint ⊢ <;> omega

section

variable (hwidth : width.toNat < 2 ^ 31) (hpos : 0 < limit.toNat) (hlimit : limit.toNat < 2 ^ 31)
include hwidth hpos hlimit

/-- **The condition of the loop**, from the first column on the screen on: the column is one of the sprite and
one of the screen. -/
lemma clipCond_iff
    (hc : c < 2 ^ 33) (hscreen : 0 ≤ x.toInt + c) :
    clipCond x width (minU32 (x + width) (limit - 1)) (BitVec.ofNat 64 c) = true ↔
      c < width.toNat ∧ x.toInt + c < limit.toNat := by
  have hlt := x.isLt
  have hint := toInt_eq x
  have hlast : (limit - 1).toNat = limit.toNat - 1 := by
    rw [BitVec.toNat_sub, show (1 : U32).toNat = 1 by rfl]
    omega
  have hcolumn := column_toNat hc hscreen
  have hright : (minU32 (x + width) (limit - 1)).toNat = min ((x.toNat + width.toNat) % 2 ^ 32) (limit.toNat - 1) := by
    rw [minU32]
    split_ifs with h <;> rw [BitVec.lt_def, hlast, BitVec.toNat_add] at h
    · rw [BitVec.toNat_add]
      omega
    · rw [hlast]
      omega
  rw [clipCond, Bool.and_eq_true, decide_eq_true_eq, decide_eq_true_eq, BitVec.lt_def, BitVec.le_def,
    counter_toNat (by omega), BitVec.toNat_setWidth_of_le (by decide), toNat_signExtend, hright, if_pos (by omega)]
  split_ifs at hint <;> omega

/-- **The clipping of an axis**: the loop goes through the columns of the sprite that are on the screen. -/
lemma clip_spans :
    ∃ stop, Spans limit.toNat (clipStart x (maxZero x)) (clipCond x width (minU32 (x + width) (limit - 1)))
      (x.signExtend 64 + ·) x.toInt stop ∧
      ∀ p < limit.toNat, (x.toInt + (clipStart x (maxZero x)).toNat ≤ p ∧ p < x.toInt + stop ↔
        x.toInt ≤ p ∧ p < x.toInt + width.toNat) := by
  have hlt := x.isLt
  have hint := toInt_eq x
  have hstart := clipStart_toNat x
  by_cases hlowest : x.toNat = 2 ^ 31
  · -- the counter starts beyond every size, and no column is on the screen
    rw [if_neg (by omega), if_pos hlowest] at hstart
    rw [if_neg (by omega)] at hint
    refine ⟨2 ^ 64 - 2 ^ 31, ⟨by omega, by omega, fun c h h' => by omega, ?_, fun c h h' => by omega⟩,
      fun p hp => by omega⟩
    have hover : ¬ BitVec.ofNat 64 (2 ^ 64 - 2 ^ 31) < width.setWidth 64 := by
      rw [BitVec.lt_def, counter_toNat (by decide), BitVec.toNat_setWidth_of_le (by decide)]
      omega
    rw [clipCond, decide_eq_false hover, Bool.false_and]
  · have hfirst : ((clipStart x (maxZero x)).toNat : ℤ) = max 0 (-x.toInt) := by
      rw [hstart]
      split_ifs at hint ⊢ <;> omega
    generalize clipStart x (maxZero x) = start at hfirst hstart
    have hbound : start.toNat < 2 ^ 32 := by
      split_ifs at hstart <;> omega
    have hcond : ∀ c, start.toNat ≤ c → c < 2 ^ 33 →
        (clipCond x width (minU32 (x + width) (limit - 1)) (BitVec.ofNat 64 c) = true ↔
          c < width.toNat ∧ x.toInt + c < limit.toNat) :=
      fun c h h' => clipCond_iff hwidth hpos hlimit h' (by omega)
    refine ⟨max start.toNat (min width.toNat (limit.toNat - x.toInt).toNat),
      ⟨by omega, by omega, fun c h h' => ?_, ?_, fun c h h' => ?_⟩, fun p hp => by omega⟩
    · exact (hcond c h (by omega)).mpr (by omega)
    · exact Bool.eq_false_iff.mpr (mt (hcond _ (by omega) (by omega)).mp (by omega))
    · exact ⟨column_toNat (by omega) (by omega), by omega⟩

end

end

/-! ### The calls -/

section

variable {ctx : FbContext} {t : Trace} {canvas : ℕ → ℕ → U32}

lemma fill_spans {limit : U32} (h : limit.toNat < 2 ^ 31) :
    Spans limit.toNat 0 (fun c => c < limit.setWidth 64) id 0 limit.toNat := by
  refine ⟨Nat.zero_le _, Nat.lt_of_lt_of_le h (Nat.le_add_left _ _), fun c _ hc => ?_, ?_, fun c _ hc => ?_⟩
  · rw [decide_eq_true_eq, BitVec.lt_def, counter_toNat (by omega), BitVec.toNat_setWidth_of_le (by decide)]
    exact hc
  · rw [decide_eq_false_iff_not, BitVec.lt_def, counter_toNat (by omega), BitVec.toNat_setWidth_of_le (by decide)]
    exact Nat.lt_irrefl _
  · rw [id, counter_toNat (by omega)]
    omega

lemma graphicsFill_shows (hctx : ctx.Ok) (hfuel : 2 ^ 31 ≤ fuel) (color : U32) (h : Shows ctx t canvas) :
    ∃ t', graphicsFill fuel ctx color t = some t' ∧ PixelStores ctx t t' ∧ Shows ctx t' fun _ _ => color := by
  obtain ⟨t', hrun, hstores, hshows⟩ := paint_spec hctx (fill_spans hctx.width_lt) (fill_spans hctx.height_lt)
    (fun _ _ => color)
    hfuel h
  refine ⟨t', hrun, hstores, hshows.congr fun px hpx py hpy => ?_⟩
  rw [rectPainted, if_pos]
  rw [show (0 : Size).toNat = 0 by rfl]
  omega

lemma pixel_eq (sprite : Sprite) {a b : ℕ} (ha : a < sprite.width.toNat) (hb : b < sprite.height.toNat) :
    sprite.pixel (BitVec.ofNat 64 a) (BitVec.ofNat 64 b) = sprite.buffer (sprite.width.toNat * b + a) := by
  have hw := sprite.width.isLt
  have hh := sprite.height.isLt
  have hrow : sprite.width.toNat * b ≤ (2 ^ 32 - 1) * (2 ^ 32 - 1) := Nat.mul_le_mul (by omega) (by omega)
  rw [Sprite.pixel, BitVec.toNat_add, BitVec.toNat_mul, BitVec.toNat_setWidth_of_le (by decide),
    counter_toNat (by omega), counter_toNat (by omega), Nat.mod_eq_of_lt
    (show sprite.width.toNat * b < 2 ^ 64 by omega), Nat.mod_eq_of_lt (by omega)]

lemma graphicsDrawSprite_shows (hctx : ctx.Ok) (hfuel : 2 ^ 31 ≤ fuel) (hw : w.Ok) (h : Shows ctx t canvas) :
    ∃ t', graphicsDrawSprite fuel ctx w.sprite w.x w.y t = some t' ∧ PixelStores ctx t t' ∧
      Shows ctx t' (Window.paint canvas w) := by
  obtain ⟨xstop, hx, hcolumns⟩ := clip_spans (x := w.x) hw.width hctx.width_pos hctx.width_lt
  obtain ⟨ystop, hy, hrows⟩ := clip_spans (x := w.y) hw.height hctx.height_pos hctx.height_lt
  obtain ⟨t', hrun, hstores, hshows⟩ := paint_spec hctx hx hy (fun cx cy => w.sprite.pixel cx cy ||| 0xFF000000) hfuel h
  rw [graphicsDrawSprite, hw.alpha]
  refine ⟨t', hrun, hstores, hshows.congr fun px hpx py hpy => ?_⟩
  rw [Window.paint, rectPainted]
  by_cases hin : w.Has px py
  · obtain ⟨⟨hleft, hright⟩, htop, hbottom⟩ := hin
    rw [if_pos ⟨⟨hleft, hright⟩, htop, hbottom⟩, if_pos ⟨(hrows py hpy).mpr ⟨htop, hbottom⟩,
      (hcolumns px hpx).mpr ⟨hleft, hright⟩⟩, pixel_eq _ (by omega) (by omega)]
    rfl
  · rw [if_neg hin, if_neg fun hpainted => hin ⟨(hcolumns px hpx).mp hpainted.2, (hrows py hpy).mp hpainted.1⟩]

/-- **`redraw_windows`** leaves the composite of the windows. -/
lemma redrawWindows_composite (hctx : ctx.Ok) (hfuel : 2 ^ 31 ≤ fuel) {c : WindowTree} (hok : ∀ w ∈ c.windows, w.Ok)
    (t : Trace) :
    ∃ t', redrawWindows fuel ctx c t = some t' ∧ PixelStores ctx t t' ∧ Shows ctx t' (composite c.windows) := by
  obtain ⟨t1, hrun1, hstores1, hshows1⟩ := graphicsFill_shows hctx hfuel 0xFF5371A6 (shows_mem ctx t)
  obtain ⟨t', hrun, hstores, hshows⟩ := run_simulation _
    (R := fun t' canvas => PixelStores ctx t t' ∧ Shows ctx t' canvas)
    (fun t2 canvas w ⟨hstores, hshows⟩ hw => by
      obtain ⟨t3, hrun, hstores', hshows'⟩ := graphicsDrawSprite_shows hctx hfuel hw hshows
      exact ⟨t3, hrun, hstores.trans hstores', hshows'⟩)
    c.windows t1 _ ⟨hstores1, hshows1⟩ (along_of_forall _ c.windows _ hok)
  refine ⟨t', ?_, hstores, hshows⟩
  rw [redrawWindows, hrun1, Option.bind_some, hrun]

end

/-! ### Which window is seen -/

section

variable {px py : ℕ}

lemma paint_of_none : ∀ {windows : List Window} (canvas : ℕ → ℕ → U32), (∀ w ∈ windows, ¬ w.Has px py) →
    windows.foldl Window.paint canvas px py = canvas px py
  | [], _, _ => rfl
  | w :: windows, canvas, hnone => by
    rw [foldl_cons, paint_of_none _ fun v hv => hnone v (mem_cons_of_mem w hv), Window.paint,
      if_neg (hnone w mem_cons_self)]

lemma paint_of_last (hw : w.Has px py) : ∀ {windows : List Window} (canvas : ℕ → ℕ → U32), w ∈ windows →
    (windows.map Window.id).Pairwise (· < ·) → (∀ v ∈ windows, v.Has px py → v.id ≤ w.id) →
    windows.foldl Window.paint canvas px py = w.color px py
  | v :: windows, canvas, hmem, hordered, hlast => by
    rw [map_cons, pairwise_cons] at hordered
    have hrest : ∀ u ∈ windows, u.Has px py → u.id ≤ w.id := fun u hu => hlast u (mem_cons_of_mem v hu)
    rw [foldl_cons]
    rcases mem_cons.mp hmem with rfl | hmem
    · have hnone : ∀ u ∈ windows, ¬ u.Has px py := fun u hu hhas =>
        Nat.not_le_of_lt (hordered.1 u.id (mem_map_of_mem hu)) (hrest u hu hhas)
      rw [paint_of_none _ hnone, Window.paint, if_pos hw]
    · exact paint_of_last hw _ hmem hordered.2 hrest

/-- **What is seen**: a window, if no window that was added later has the pixel; the background, if no window
has it. -/
lemma composite_eq (c : WindowTree) (px py : ℕ) :
    (∀ w ∈ c.windows, w.Has px py → (∀ v ∈ c.windows, v.Has px py → v.id ≤ w.id) →
    composite c.windows px py = w.color px py) ∧
      ((∀ w ∈ c.windows, ¬ w.Has px py) → composite c.windows px py = 0xFF5371A6) :=
  ⟨fun _ hw hhas hlast => paint_of_last hhas _ hw c.ordered hlast, fun hnone => paint_of_none _ hnone⟩

end

/-- **`redraw_windows`** stores to pixels of the frame buffer only, and leaves each of them the color of the
window that was added last of those that have it, or the background if no window has it. -/
theorem redraw_windows_shows {ctx : FbContext} (hctx : ctx.Ok) {c : WindowTree} (hok : ∀ w ∈ c.windows, w.Ok) {fuel : ℕ}
    (hfuel : 2 ^ 31 ≤ fuel) (t : Trace) :
    ∃ t', redrawWindows fuel ctx c t = some t' ∧ PixelStores ctx t t' ∧ ∀ px < ctx.width.toNat, ∀ py < ctx.height.toNat,
      (∀ w ∈ c.windows, w.Has px py → (∀ v ∈ c.windows, v.Has px py → v.id ≤ w.id) →
        load t'.mem (ctx.offset px py) 4 = (w.color px py).toNat) ∧
      ((∀ w ∈ c.windows, ¬ w.Has px py) → load t'.mem (ctx.offset px py) 4 = 0xFF5371A6) := by
  obtain ⟨t', hrun, hstores, hshows⟩ := redrawWindows_composite hctx hfuel hok t
  refine ⟨t', hrun, hstores, fun px hpx py hpy => ?_⟩
  obtain ⟨hseen, hbackground⟩ := composite_eq c px py
  rw [hshows px hpx py hpy]
  refine ⟨fun w hw hhas hlast => ?_, fun hnone => ?_⟩
  · rw [hseen w hw hhas hlast]
  · rw [hbackground hnone]
    rfl

def twoPixels : FbContext := ⟨2, 1, 32, 8⟩

def onePixel (x color : U32) : Window := ⟨x, 0, ⟨1, 1, fun _ => color, .alphaOpaque⟩, 0⟩

def twoWindows : WindowTree := compositorAddWindow (compositorAddWindow .empty (onePixel 0 1)) (onePixel 0 2)

theorem redraw_windows_two : ∃ t', redrawWindows (2 ^ 31) twoPixels twoWindows ⟨fun _ => 0, []⟩ = some t' ∧
    load t'.mem 0 4 = 0xFF000002 ∧ load t'.mem 4 4 = 0xFF5371A6 := by
  have hok : ∀ w ∈ twoWindows.windows, w.Ok := by
    intro w hw
    rcases mem_cons.mp hw with rfl | hw
    · exact ⟨rfl, by decide, by decide⟩
    · rw [mem_singleton.mp hw]
      exact ⟨rfl, by decide, by decide⟩
  have hctx : twoPixels.Ok := ⟨by decide, by decide, by decide, by decide, rfl, rfl⟩
  obtain ⟨t', hrun, -, hseen⟩ := redraw_windows_shows hctx hok (Nat.le_refl _) ⟨fun _ => 0, []⟩
  refine ⟨t', hrun, ?_, ?_⟩
  · exact (hseen 0 (by decide) 0 (by decide)).1 { onePixel 0 2 with id := 2 }
      (mem_cons_of_mem _ mem_cons_self) (by decide)
      (by decide)
  · exact (hseen 1 (by decide) 0 (by decide)).2 (by decide)

/-! ### The server -/

section

variable {ctx : FbContext} {t : Trace} {s : Server}

/-- The sizes of a new window fit an `int32_t`, its pixels fit 32 bits, and it has a buffer. -/
def Request.Fits : Request → Prop
  | .createWindow width height shm =>
    width.toNat < 2 ^ 31 ∧ height.toNat < 2 ^ 31 ∧ 4 * (width.toNat * height.toNat) < 2 ^ 32 ∧ shm.isSome
  | _ => True

/-- What every request keeps, from the frame buffer `t` on. -/
structure Server.Inv (ctx : FbContext) (t : Trace) (s : Server) : Prop where
  windows : ∀ w ∈ s.windowTree.windows, w.Ok
  fb : PixelStores ctx t s.fb
  backed : s.unbacked = false

lemma Server.Inv.change (hs : s.Inv ctx t) {id : ℕ} {f : Window → Window} (hf : ∀ w : Window, w.Ok → (f w).Ok) :
    ∀ w ∈ (s.windowTree.change id f).windows, w.Ok := by
  intro w hw
  obtain ⟨v, hv, rfl⟩ := mem_map.mp hw
  rw [Window.changed]
  split_ifs
  · obtain ⟨halpha, hwidth, hheight⟩ := hf v (hs.windows v hv)
    exact ⟨halpha, hwidth, hheight⟩
  · exact hs.windows v hv

section

variable (hctx : ctx.Ok) (hfuel : 2 ^ 31 ≤ fuel)
include hctx hfuel

end

end

end WivOS.Compositor
