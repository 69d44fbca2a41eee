import LedPattern.Proofs.Preservation
import LedPattern.Proofs.Steps

/-!
# Which renderings fault

An instance is called again and again, each time with a frame and with pixels to render it onto. A
call may fault, and what it has written until then stays for the next one (`Instance.after`).

A program that passes its checks and whose names differ faults only for want of an audio signal.
Otherwise it returns as many pixels as it has LEDs, to all of which it has stored
(`certificate_sound`). The program of a graph never faults (`lowered_never_faults`), since it reads
the audio signal only where there is one. Both rest on one invariant, `Instance.Serves`: whatever
pixels an instance is given next, its storage has the form that its program asks for. A call keeps
it, whether it faults or not (`Serves.render`).
-/

namespace LedPattern

/-- A frame, and the pixels onto which an instance is to render it. -/
structure Call where
  frame : Frame
  pixels : Array Pixel

/-- The frame is complete, and there is a pixel for each of `width` LEDs. -/
structure Call.Fits (width : Nat) (call : Call) : Prop where
  complete : call.frame.Complete
  size : call.pixels.size = width

namespace Memory

variable {p : Program} {names : List String} {m : Memory} {σ : Store}

/-- Storage with other pixels models the store with these. -/
theorem Models.withPixels (h : m.Models p names σ) {pixels : Array Pixel}
    (hsize : pixels.size = p.frameWidth) :
    { m with pixels }.Models p names { σ with pixel := fun j => pixels.getD j Pixel.dark } := by
  refine ⟨h.buffers, h.owners, h.locals_size, h.locals, hsize, fun j hj => ?_⟩
  simp [hsize, hj]

end Memory

namespace Instance

variable {p : Program} {x : Instance}

/-- What a call returns. -/
def answer (x : Instance) (call : Call) : Rendered := x.render call.frame call.pixels

/-- The instance after some calls, whether they fault or not. -/
def after (x : Instance) (calls : List Call) : Instance :=
  calls.foldl (fun x call => (x.answer call).state) x

/-- Whatever pixels an instance is given, its storage has the form that a program asks for. -/
def Serves (p : Program) (x : Instance) : Prop :=
  ∀ pixels : Array Pixel, pixels.size = p.frameWidth → ∃ σ, (Simulator.mk x pixels).Models p σ

/-- An instance has the right storage for all pixels if it has for some. -/
theorem serves_of_models {pixels : Array Pixel} {σ : Store}
    (h : (Simulator.mk x pixels).Models p σ) : x.Serves p := by
  obtain ⟨hprogram, scope, hcode, hm⟩ := h
  intro others hsize
  exact ⟨_, hprogram, scope, hcode, hm.withPixels hsize⟩

/-- A new instance has the right storage. -/
theorem serves_of_ofProgram (hp : p.Distinct) (hx : ofProgram p = .ok x) : x.Serves p :=
  serves_of_models (Simulator.models_of_ofProgram hp hx)

/-- A call keeps the form of the storage and the number of pixels, and faults only for want of an
audio signal. -/
theorem Serves.render (h : x.Serves p) (hp : p.Distinct)
    (hfits : ∀ l ∈ p.body.loops, ∀ i ∈ l.2, p.instrFits l.1 i = true) {call : Call}
    (hcall : call.Fits p.frameWidth) :
    (x.answer call).state.Serves p ∧ (x.answer call).pixels.size = p.frameWidth ∧
      ((x.answer call).fault = none ∨
        (x.answer call).fault = some .audioMissing ∧ ¬p.body.Quiet) := by
  obtain ⟨σ, hmodels⟩ := h call.pixels hcall.size
  rcases hmodels.step_cases hp hfits hcall.complete with ⟨hfault, hm⟩ | ⟨hfault, hloud, τ, hm⟩
  · exact ⟨serves_of_models hm, hm.pixels_size, .inl hfault⟩
  · exact ⟨serves_of_models hm, hm.pixels_size, .inr ⟨hfault, hloud⟩⟩

/-- Any number of calls, whether they fault or not, keep the form of the storage. -/
theorem Serves.after (h : x.Serves p) (hp : p.Distinct)
    (hfits : ∀ l ∈ p.body.loops, ∀ i ∈ l.2, p.instrFits l.1 i = true) {calls : List Call}
    (hcalls : ∀ call ∈ calls, call.Fits p.frameWidth) : (x.after calls).Serves p := by
  induction calls generalizing x with
  | nil => exact h
  | cons call rest ih =>
    rw [List.forall_mem_cons] at hcalls
    exact ih (h.render hp hfits hcalls.1).1 hcalls.2

end Instance

/-- The program of a graph has an instance, which renders every frame without a fault, whatever
frames it has rendered before. -/
theorem lowered_never_faults {source : String} {g : Graph} {p : Program}
    (hload : (Graph.load source).value = some g) (hlower : g.program = .ok p) :
    ∃ x, Instance.ofProgram p = .ok x ∧
      ∀ (history : List Call) (call : Call), (∀ c ∈ history, c.Fits p.frameWidth) →
        call.Fits p.frameWidth → ((x.after history).answer call).fault = none := by
  have hg := Graph.wellFormed_of_load hload
  obtain ⟨pl, hplan, rfl⟩ := Graph.exists_plan_of_lower (Graph.lower_of_program hlower).1
  have hsound := Graph.programOf_sound hg hplan
  obtain ⟨⟨scope, code⟩, hcode⟩ := hsound.addressed
  have hx := Instance.ofProgram_eq (g.programOf pl)
  rw [hcode] at hx
  refine ⟨_, hx, fun history call hhistory hcall => ?_⟩
  have hserves := (Instance.serves_of_ofProgram hsound.distinct hx).after hsound.distinct
    hsound.fits hhistory
  obtain ⟨-, -, hfault | ⟨-, hloud⟩⟩ := hserves.render hsound.distinct hsound.fits hcall
  · exact hfault
  · -- The code of a graph asks for a signal before it listens.
    exact absurd hsound.quiet hloud

/-- A frame whose levels are no numbers, with infinite energy and brightness. -/
def wildFrame : Frame :=
  ⟨0, some ⟨Array.replicate spectrumBins (0 / 0), 1 / 0⟩, { brightness := 1 / 0 }⟩

/-- The chain with a fork takes a frame of numbers that are none without a fault, after a frame
without a signal. -/
theorem forkedSource_never_faults :
    ∃ g p, (Graph.load forkedSource).value = some g ∧ g.program = .ok p ∧
      ∃ x, Instance.ofProgram p = .ok x ∧
        let dark := Array.replicate p.frameWidth Pixel.dark
        (Call.mk silentFrame dark).Fits p.frameWidth ∧ (Call.mk wildFrame dark).Fits p.frameWidth ∧
          ((x.after [⟨silentFrame, dark⟩]).answer ⟨wildFrame, dark⟩).fault = none := by
  obtain ⟨g, p, hload, hlower⟩ := forkedSource_compiles
  have hvalue := (Graph.load_of_ofSource hload).1
  obtain ⟨x, hx, hnever⟩ := lowered_never_faults hvalue hlower
  have hsilent : (Call.mk silentFrame (Array.replicate p.frameWidth Pixel.dark)).Fits
      p.frameWidth := ⟨by simp [silentFrame, Frame.Complete], by simp⟩
  have hwild : (Call.mk wildFrame (Array.replicate p.frameWidth Pixel.dark)).Fits
      p.frameWidth := ⟨by simp [wildFrame, Frame.Complete], by simp⟩
  exact ⟨g, p, hvalue, hlower, x, hx, hsilent, hwild,
    hnever [⟨silentFrame, _⟩] ⟨wildFrame, _⟩ (by simpa using hsilent) hwild⟩

end LedPattern
