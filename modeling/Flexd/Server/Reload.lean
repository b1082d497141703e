import Flexd.Server.HttpLoop

/-!
# Which block a listener serves after a reload

A listener is bound once, for a listen directive of one block, and finds its
block again by the position that block had. `ServesOwner` is what one would
want of a reload: the block served afterwards still has the directive.
`eachReload_servesOwner_iff` says for which sequences of configurations the
position leads there.
-/

namespace Flexd

open Lib

variable {ext : External} {listen : ListenDirective}

/-- `Q` holds at every reload that a running listener processes: of the listener, the new
configuration, and the listener afterwards. -/
def EachReload (ext : External) (Q : HttpLoop → Config → HttpLoop → Prop) :
    HttpLoop → List AcceptEvent → Prop
  | _, [] => True
  | loop, e :: evs =>
    (∀ config files, e = .reload config files → loop.running = true →
      Q loop config (loop.step ext e)) ∧ EachReload ext Q (loop.step ext e) evs

/-- The listener goes on with a block of the configuration that has the directive, or, if there
is none, with the block it had. -/
def ServesOwner (listen : ListenDirective) (before : HttpLoop) (config : Config)
    (after : HttpLoop) : Prop :=
  (after.httpBlock ∈ config.http ∧ listen ∈ after.httpBlock.listen) ∨
    ((∀ block ∈ config.http, listen ∉ block.listen) ∧ after.httpBlock = before.httpBlock)

/-- The block at the listener's index has the directive; or the index is past the end, and the
configuration has the block served so far, or no block with the directive. -/
def IndexOwns (listen : ListenDirective) (before : HttpLoop) (config : Config) : Prop :=
  match config.http[before.blockIdx]? with
  | some block => listen ∈ block.listen
  | none => before.httpBlock ∈ config.http ∨ ∀ block ∈ config.http, listen ∉ block.listen

/-- **One reload** of a listener whose block has the directive. -/
theorem servesOwner_reload (ext : External) {loop : HttpLoop} (hr : loop.running = true)
    (howns : listen ∈ loop.httpBlock.listen) (config : Config) (files : TlsFiles) :
    ServesOwner listen loop config (loop.step ext (.reload config files)) ↔
      IndexOwns listen loop config := by
  obtain ⟨-, hblock⟩ := HttpLoop.httpBlock_reload ext hr config files
  unfold ServesOwner IndexOwns
  rw [hblock]
  cases hc : config.http[loop.blockIdx]? with
  | none =>
    simp only [Option.getD_none]
    tauto
  | some block =>
    have hmem := List.mem_of_getElem? hc
    simp only [Option.getD_some]
    constructor
    · rintro (⟨-, h⟩ | ⟨hno, heq⟩)
      · exact h
      · exact absurd (heq ▸ howns) (hno block hmem)
    · exact fun h => .inl ⟨hmem, h⟩

theorem owns_reload {loop : HttpLoop} (hr : loop.running = true)
    (howns : listen ∈ loop.httpBlock.listen) {config : Config} (files : TlsFiles)
    (h : IndexOwns listen loop config) :
    listen ∈ (loop.step ext (.reload config files)).httpBlock.listen := by
  obtain ⟨-, hblock⟩ := HttpLoop.httpBlock_reload ext hr config files
  unfold IndexOwns at h
  rw [hblock]
  cases hc : config.http[loop.blockIdx]? with
  | none => exact howns
  | some block =>
    rw [hc] at h
    exact h

/-- **A whole run** of a listener whose block has the directive at its start. -/
theorem eachReload_iff_of_owns {loop : HttpLoop} (howns : listen ∈ loop.httpBlock.listen)
    (evs : List AcceptEvent) :
    EachReload ext (ServesOwner listen) loop evs ↔
      EachReload ext (fun before config _ => IndexOwns listen before config) loop evs := by
  induction evs generalizing loop with
  | nil => exact Iff.rfl
  | cons e evs ih =>
    unfold EachReload
    by_cases hreload : ∃ config files, e = .reload config files ∧ loop.running = true
    · obtain ⟨config, files, rfl, hr⟩ := hreload
      have hstep := servesOwner_reload ext hr howns config files
      -- Only a reload that leaves the directive in place lets the run go on as assumed.
      constructor
      · rintro ⟨h, hrest⟩
        have hix := hstep.mp (h config files rfl hr)
        refine ⟨?_, (ih (owns_reload hr howns files hix)).mp hrest⟩
        rintro _ _ ⟨⟩ -
        exact hix
      · rintro ⟨h, hrest⟩
        have hix := h config files rfl hr
        refine ⟨?_, (ih (owns_reload hr howns files hix)).mpr hrest⟩
        rintro _ _ ⟨⟩ -
        exact hstep.mpr hix
    · have hnone : ∀ config files, e = .reload config files → loop.running = true → False :=
        fun config files he hr => hreload ⟨config, files, he, hr⟩
      have hsame : (loop.step ext e).httpBlock = loop.httpBlock := by
        cases hr : loop.running with
        | false => rw [HttpLoop.step_of_not_running hr]
        | true => exact HttpLoop.httpBlock_step_eq fun config files he => hnone config files he hr
      have howns : listen ∈ (loop.step ext e).httpBlock.listen := by
        rw [hsame]
        exact howns
      have hrest := ih howns
      constructor
      · rintro ⟨-, h⟩
        exact ⟨fun config files he hr => (hnone config files he hr).elim, hrest.mp h⟩
      · rintro ⟨-, h⟩
        exact ⟨fun config files he hr => (hnone config files he hr).elim, hrest.mpr h⟩

/-- **Every reload leaves a listener with a block that has its directive, or with the one it had
when none does, exactly when every new configuration has such a block at the listener's index**,
or has no such index and then the old block or no block with the directive. -/
theorem eachReload_servesOwner_iff {files : TlsFiles} {idx : Nat} {block : HttpBlock}
    {loop : HttpLoop} (hlisten : listen ∈ block.listen)
    (hstart : HttpLoop.start ext files block idx listen = some loop) (evs : List AcceptEvent) :
    EachReload ext (ServesOwner listen) loop evs ↔
      EachReload ext (fun before config _ => IndexOwns listen before config) loop evs := by
  obtain ⟨-, hb, -, -⟩ := HttpLoop.start_spec hstart
  exact eachReload_iff_of_owns (by rw [hb]; exact hlisten) evs

open Sample

theorem eachReload_servesOwner_iff_alpha :
    ({ port := 8080 } : ListenDirective) ∈ alphaBlock.listen ∧
    HttpLoop.start .sample noFiles alphaBlock 0 { port := 8080 } = some (firstLoop alphaBlock) ∧
    (EachReload .sample (ServesOwner { port := 8080 }) (firstLoop alphaBlock)
        [.reload { http := [alphaBlock] } noFiles] ↔
      EachReload .sample (fun before config _ => IndexOwns { port := 8080 } before config)
        (firstLoop alphaBlock) [.reload { http := [alphaBlock] } noFiles]) :=
  ⟨List.mem_singleton.mpr rfl, rfl,
    eachReload_servesOwner_iff (List.mem_singleton.mpr rfl)
      (rfl : HttpLoop.start .sample noFiles alphaBlock 0 { port := 8080 } =
        some (firstLoop alphaBlock)) _⟩

/-- Two blocks change places: the listener of the one then serves the other. -/
theorem reload_serves_other_block :
    ¬ ∀ first : Config, first.validate .sample .bare = .ok () →
      ∀ idx block listen loop files, first.http[idx]? = some block → listen ∈ block.listen →
        HttpLoop.start .sample files block idx listen = some loop →
        ∀ evs, (∀ config files, AcceptEvent.reload config files ∈ evs →
          config.validate .sample .bare = .ok ()) →
        EachReload .sample (ServesOwner listen) loop evs := by
  intro h
  have hone := h { http := [alphaBlock, betaBlock] } (by decide) 0 alphaBlock { port := 8080 }
    (firstLoop alphaBlock) noFiles rfl (List.mem_singleton.mpr rfl) rfl
    [.reload { http := [betaBlock, alphaBlock] } noFiles] (by
      intro config files hmem
      cases List.mem_singleton.mp hmem
      decide)
  rcases hone.1 _ _ rfl rfl with ⟨-, hl⟩ | ⟨hno, -⟩
  · have hl : ({ port := 8080 } : ListenDirective) ∈ betaBlock.listen := hl
    revert hl
    decide
  · exact hno alphaBlock (by simp) (by decide)

end Flexd
