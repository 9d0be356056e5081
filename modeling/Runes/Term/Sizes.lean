import Runes.Term.Resize

/-!
This module contains that everything that depends on the size of a window agrees about it: the window
inside of the border, the pty, the screen of libvt100 and the buffer for glyphs.
-/

namespace Runes
namespace Term

variable {ρ : Type} {env : Env ρ} {start : Start} {s s' : World ρ}

structure Size where
  width : Int
  height : Int
  deriving DecidableEq

-- The size that an event gives the window inside of the border.
def insideSize (e : ConfigureEvent) (later : List ConfigureEvent) : Size :=
  let e := later.getLastD e
  { width := windowDimension e.width - 4, height := windowDimension e.height - 4 }

/-- The size of the window inside after an event. -/
def nextSize (size : Size) (input : Input) : Size :=
  match input with
  | .event false (.configure e later) => if e.border then insideSize e later else size
  | _ => size

def resizedTo (size : Size) (a : Action) : Size :=
  match a with
  | .resize width height => { width, height }
  | _ => size

-- What `cairo_xlib_surface_set_size` was called with last.
def pixelSize (start : Start) (s : World ρ) : Size :=
  (sizes s).foldl resizedTo { width := start.width, height := start.height }

def toldTo (told : Option Action) (a : Action) : Option Action :=
  match a with
  | .setWindowSize _ _ _ _ => some a
  | _ => told

-- What the pty was told last.
def toldSize (s : World ρ) : Option Action := (sizes s).foldl toldTo none

-- The size of the screen, in rows and columns.
def cells (start : Start) (size : Size) : Loc :=
  ⟨size.height.tdiv start.fonty, size.width.tdiv start.fontx⟩

-- `struct winsize` has 16 bits for each number.
def winsize (start : Start) (size : Size) : Action :=
  .setWindowSize ((cells start size).row % 65536) ((cells start size).col % 65536)
    (size.width % 65536) (size.height % 65536)

/--
What is assumed of libvt100: a screen has the size that it was given last.
-/
structure VT100.KeepsSize (vt : VT100 ρ) : Prop where
  setWindowSize : ∀ scr row col, (vt.setWindowSize scr row col).grid.max = ⟨row, col⟩
  processString : ∀ scr buf, (vt.processString scr buf).fst.grid.max = scr.grid.max

/-- Everything is of this size. -/
structure Agrees (start : Start) (size : Size) (s : World ρ) : Prop where
  pixels : pixelSize start s = size
  told : toldSize s = some (winsize start size)
  screen : s.term.scr.grid.max = cells start size
  glyphBuf : s.term.display.glyphBuf = (cells start size).col

-- Neither the font nor the size in pixels is ever assigned.
structure Constant (start : Start) (s : World ρ) : Prop where
  fontx : s.term.display.fontx = start.fontx
  fonty : s.term.display.fonty = start.fonty
  xpixel : s.term.display.xpixel = 0

theorem Agrees.congr {size : Size} (h : Agrees start size s) (hsizes : sizes s' = sizes s)
    (hextent : extent s' = extent s)
    : Agrees start size s' where
  pixels := by
    unfold pixelSize
    rw [hsizes]
    exact h.pixels
  told := by
    unfold toldSize
    rw [hsizes]
    exact h.told
  screen := (congrArg (·.grid.max) hextent).trans h.screen
  glyphBuf := (congrArg Extent.glyphBuf hextent).trans h.glyphBuf

theorem Constant.congr (h : Constant start s) (hextent : extent s' = extent s)
    : Constant start s' where
  fontx := (congrArg Extent.fontx hextent).trans h.fontx
  fonty := (congrArg Extent.fonty hextent).trans h.fonty
  xpixel := (congrArg Extent.xpixel hextent).trans h.xpixel

theorem termSetWindowSize_agrees (hlib : env.vt100.KeepsSize) (hs : Constant start s) {size : Size}
    (hpixels : pixelSize start s = size)
    : Agrees start size (termSetWindowSize env size.width size.height s)
        ∧ Constant start (termSetWindowSize env size.width size.height s) := by
  have hsizes : sizes (termSetWindowSize env size.width size.height s) = _ :=
    sizes_termSetWindowSize size.width size.height s
  have hcells : (⟨size.height.tdiv s.term.display.fonty, size.width.tdiv s.term.display.fontx⟩ : Loc)
      = cells start size := by
    rw [hs.fontx, hs.fonty]
    rfl
  refine ⟨⟨?_, ?_, ?_, congrArg (·.col) hcells⟩, hs.fontx, hs.fonty, hs.xpixel⟩
  . unfold pixelSize
    rw [hsizes, List.foldl_append]
    exact hpixels
  . unfold toldSize winsize
    rw [hsizes, List.foldl_append, ← hcells]
    rfl
  . exact (hlib.setWindowSize _ _ _).trans hcells

theorem windowResizeWindow_agrees (hlib : env.vt100.KeepsSize) (hs : Constant start s)
    (width height : Int)
    : Agrees start ⟨windowDimension width - 4, windowDimension height - 4⟩
          (windowResizeWindow env width height s)
        ∧ Constant start (windowResizeWindow env width height s) := by
  let size : Size := ⟨windowDimension width - 4, windowDimension height - 4⟩
  let s₁ := act (.resize size.width size.height) s
  have hpixels : pixelSize start s₁ = size := by
    unfold pixelSize
    rw [sizes_act _ rfl, List.foldl_append]
    rfl
  have hs₁ : Constant start s₁ := ⟨hs.fontx, hs.fonty, hs.xpixel⟩
  obtain ⟨hagrees, hconstant⟩ := termSetWindowSize_agrees hlib hs₁ hpixels
  obtain ⟨hextent, hsizes⟩ :=
    displayMaybeClearSelection_extent env (termSetWindowSize env size.width size.height s₁)
  rw [windowResizeWindow_eq width height s hs.xpixel]
  exact ⟨hagrees.congr hsizes hextent, hconstant.congr hextent⟩

theorem resized_agrees (hlib : env.vt100.KeepsSize) {size : Size} (hs : Agrees start size s)
    (hconstant : Constant start s) (input : Input)
    : Agrees start (nextSize size input) (resized env s input)
        ∧ Constant start (resized env s input) := by
  cases input with
  | event filtered e =>
    cases e with
    | configure e later =>
      cases filtered with
      | true => exact ⟨hs, hconstant⟩
      | false =>
        unfold nextSize resized
        dsimp only
        split
        . exact windowResizeWindow_agrees hlib hconstant _ _
        . exact ⟨hs, hconstant⟩
    | _ => cases filtered <;> exact ⟨hs, hconstant⟩
  | ptyReady id answer =>
    cases answer with
    | none => exact ⟨hs, hconstant⟩
    | some bytes =>
      cases bytes with
      | nil => exact ⟨hs, hconstant⟩
      | cons byte bytes =>
        refine ⟨⟨hs.pixels, hs.told, ?_, hs.glyphBuf⟩, hconstant.fontx, hconstant.fonty, hconstant.xpixel⟩
        exact (hlib.processString _ _).trans hs.screen
  | _ => exact ⟨hs, hconstant⟩

theorem init_agrees (env : Env ρ) (hlib : env.vt100.KeepsSize) (start : Start)
    : Agrees start ⟨start.width, start.height⟩ (machine env start).init
        ∧ Constant start (machine env start).init := by
  have hnew : Agrees start ⟨start.width, start.height⟩ (termNew env start)
      ∧ Constant start (termNew env start) := by
    unfold termNew
    exact termSetWindowSize_agrees hlib (⟨rfl, rfl, rfl⟩ : Constant start _) rfl
  exact ⟨hnew.left.congr rfl rfl, hnew.right.congr rfl⟩

theorem step_agrees (hlib : env.vt100.KeepsSize) {size : Size} (hs : Agrees start size s)
    (hconstant : Constant start s) {input : Input} (hstep : step env s input = some s')
    : Agrees start (nextSize size input) s' ∧ Constant start s' := by
  have hhandles := handles_of_stepped (stepped hstep)
  obtain ⟨hresized, hconstant'⟩ := resized_agrees hlib hs hconstant input
  exact ⟨hresized.congr hhandles.sizes hhandles.extent, hconstant'.congr hhandles.extent⟩

theorem run_agrees (hlib : env.vt100.KeepsSize) {size : Size} (hs : Agrees start size s)
    (hconstant : Constant start s) {inputs : List Input}
    (hrun : (machine env start).run s inputs = some s')
    : Agrees start (inputs.foldl nextSize size) s' := by
  induction inputs generalizing s size with
  | nil =>
    cases hrun
    exact hs
  | cons input inputs ih =>
    unfold Exec.Machine.run at hrun
    split at hrun
    . next s₁ hstep =>
      obtain ⟨hs₁, hconstant₁⟩ := step_agrees hlib hs hconstant hstep
      exact ih hs₁ hconstant₁ hrun
    . cases hrun

namespace Plain

theorem clampingVt100_keepsSize : clampingVt100.KeepsSize :=
  ⟨fun _ _ _ => rfl, fun scr buf => process_max scr.grid buf⟩

-- The later one of two events counts, then there is output.
def resizesAndPrints : List Input :=
  [.windowReady 0, .event false (.configure ⟨true, 12, 20⟩ [⟨true, 84, 36⟩]), .drained,
    .ptyReady 1 (some [0x0a, 0x0a, 0x0a])]

end Plain

end Term
end Runes
