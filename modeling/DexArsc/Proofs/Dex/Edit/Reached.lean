/-
Files that are reached from the empty one by edits, failing ones included. None of their references
dangles unless code was added with one that did, and a class that is removed takes with it exactly what only it used.
-/

import DexArsc.Proofs.Dex.Edit.Anchored
import DexArsc.Proofs.Dex.Edit.Run

namespace DexArsc.Dex

namespace Edit

/-- The debug information of code that an edit adds is absent or live. -/
def Describes (file : DexFile) : Edit → Prop
  | addCode code => code.debugInfo.Live file.debugInfos
  | addMethod _ _ _ code => ∀ item ∈ code, item.debugInfo.Live file.debugInfos
  | _ => True

/-- Code that an edit adds fits the file. -/
def Fits (file : DexFile) : Edit → Prop
  | addCode code => code.Fits file
  | addMethod _ _ _ code => ∀ item ∈ code, item.Fits file
  | _ => True

end Edit

namespace DexFile

variable {file between final third : DexFile}

/-- Members name live items behind every edit, whether it succeeds or fails. -/
theorem MembersAnchored.after (anchored : file.MembersAnchored) (sound : file.Sound) {edit : Edit}
    (fits : edit.Fits file) : (edit.after file).MembersAnchored := by
  have interned {α : Type} {step : Step DexFile α} {holds : α → Outline → Prop}
      (interns : Interns step file holds) : (Functor.discard step).Leads Secures file :=
    .discard ⟨(Interns.secures interns).imp (fun _ _ here => here.1) fun _ secures => secures⟩
  have secured {final : DexFile} (secures : file.Secures final) : final.MembersAnchored :=
    secures.anchored anchored
  have ends := edit.ends_after file
  cases edit with
  | internString text => exact secured ((interned (sound.internString text)).ends ends)
  | internType descriptor => exact secured ((interned (sound.internType descriptor)).ends ends)
  | internTypeList descriptors =>
      exact secured ((interned (sound.internTypeList descriptors)).ends ends)
  | internProto key => exact secured ((interned (sound.internProto key)).ends ends)
  | internField key => exact secured ((interned (sound.internField key)).ends ends)
  | internMethod key => exact secured ((interned (sound.internMethod key)).ends ends)
  | renameString id text =>
      have leads : (DexFile.renameString id text).Leads Secures file :=
        ⟨(sound.renameString id text).imp (fun _ _ here => .of_keeps here.2.1)
          fun _ here => .of_keeps here.2.1⟩
      exact secured (leads.ends ends)
  | renameType id descriptor =>
      have leads : (DexFile.renameType id descriptor).Leads Secures file :=
        ⟨(sound.renameType id descriptor).imp (fun _ _ renamed => .of_keeps renamed.keeps)
          fun _ renamed => .of_keeps renamed.keeps⟩
      exact secured (leads.ends ends)
  | defineClass descriptor flags superclass =>
      exact secured ((sound.secures_defineClass descriptor flags superclass).discard.ends ends)
  | addField id key flags => exact secured ((sound.secures_addField id key flags).discard.ends ends)
  | addMethod id key flags code =>
      exact secured ((sound.secures_addMethod id key flags code fits).discard.ends ends)
  | addCode code =>
      have leads : (DexFile.addCode code).Leads Secures file :=
        ⟨(sound.secures_addCode fits).imp (fun _ _ here => here.1) fun _ secures => secures⟩
      exact secured (leads.discard.ends ends)
  | addDebugInfo info =>
      have leads : (DexFile.addDebugInfo info).Leads Secures file := ⟨.pushDebugInfo _⟩
      exact secured (leads.discard.ends ends)
  | removeClass id =>
      have leads : (DexFile.removeClass id).Leads
          (fun file final => file.MembersAnchored → final.MembersAnchored) file := by
        refine .of_ends fun final ends before => ?_
        rcases ends with ⟨item, run⟩ | ⟨fault, run⟩
        · exact (removesClass sound.valid run).membersAnchored before
        · rw [removeClass_apply] at run
          split at run
          · cases run
            exact before
          · cases run
      exact leads.discard.ends ends anchored
  | shareDebugInfo =>
      have leads : (Edit.step .shareDebugInfo).Leads
          (fun file final => file.MembersAnchored → final.MembersAnchored) file :=
        .modify (membersAnchored_shareDebugInfo (sound.valid .debugInfo))
      exact leads.ends ends anchored
  | sortIds =>
      have leads : (Edit.step .sortIds).Leads Secures file :=
        .modify (.of_follows (follows_sortIds sound.valid sound.strings))
      exact secured (leads.ends ends)
  | refresh options => exact secured (.of_follows ((Follows.refresh options file).ends ends))
  | toBytes options => exact secured (.of_follows ((Follows.toBytes options file).discard.ends ends))

/-- A file that is reached from the empty one by edits that are allowed and that succeed or fail. -/
inductive Reached (allowed : DexFile → Edit → Prop) : DexFile → Prop
  | new : Reached allowed {}
  | edit {file : DexFile} (reached : Reached allowed file) {edit : Edit} (fits : allowed file edit) :
    Reached allowed (edit.after file)

theorem Reached.sound {allowed : DexFile → Edit → Prop} (reached : file.Reached allowed) : file.Sound := by
  induction reached with
  | new => exact sound_empty
  | edit _ _ sound => exact sound.after _

theorem Reached.membersAnchored (reached : file.Reached Edit.Fits) : file.MembersAnchored := by
  induction reached with
  | new =>
      refine ⟨?_, ?_, ?_⟩ <;>
      · intro id item found
        cases found
  | edit reached fits anchored => exact anchored.after reached.sound fits

/-- Every item that a reference names is live as long as the exception types of code that is added are unlinked or
live. A removal of a class that succeeds removes the class and what only it used, and nothing else. -/
theorem noneDangling_of_reached : (file.Reached Edit.Fits → file.Anchored) ∧
    (file.Reached Edit.Describes → ∀ id item final, removeClass id file = .ok item final →
      file.RemovesClass id item final) :=
  ⟨fun reached => reached.membersAnchored.anchored reached.sound,
    fun reached _ _ _ run => removesClass reached.sound.valid run⟩

/-- A class next to code with debug information. -/
theorem noneDangling_of_reached_class :
    let file := (Edit.defineClass "LA;" 1 none).after
      ((Edit.addCode { debugInfo := .ofId ⟨0⟩ }).after ((Edit.addDebugInfo {}).after {}))
    file.Reached Edit.Fits ∧ file.Anchored ∧ file.Reached Edit.Describes ∧ ∃ item final,
      removeClass ⟨0⟩ file = .ok item final ∧ file.RemovesClass ⟨0⟩ item final := by
  have live : (OffsetRef.ofId ⟨0⟩).Live ((Edit.addDebugInfo {}).after {}).debugInfos :=
    OffsetRef.live_ofId (by decide)
  have fitting : ((Edit.addCode { debugInfo := .ofId ⟨0⟩ }).after ((Edit.addDebugInfo {}).after {})).Reached
      Edit.Fits := .edit (.edit .new trivial) ⟨live, by simp⟩
  have described : ((Edit.addCode { debugInfo := .ofId ⟨0⟩ }).after ((Edit.addDebugInfo {}).after {})).Reached
      Edit.Describes := .edit (.edit .new trivial) live
  have fitting' : ((Edit.defineClass "LA;" 1 none).after ((Edit.addCode { debugInfo := .ofId ⟨0⟩ }).after
      ((Edit.addDebugInfo {}).after {}))).Reached Edit.Fits := .edit fitting trivial
  have described' : ((Edit.defineClass "LA;" 1 none).after ((Edit.addCode { debugInfo := .ofId ⟨0⟩ }).after
      ((Edit.addDebugInfo {}).after {}))).Reached Edit.Describes := .edit described trivial
  have run : defineClass "LA;" 1 none
      ((Edit.addCode { debugInfo := .ofId ⟨0⟩ }).after ((Edit.addDebugInfo {}).after {})) = _ :=
    defineClass_of_new ⟨rfl, rfl, rfl, rfl, rfl⟩ 1 (by decide) (by decide +kernel) rfl
      Std.HashMap.getElem?_empty Std.HashMap.getElem?_empty
  have found : ((Edit.defineClass "LA;" 1 none).after ((Edit.addCode { debugInfo := .ofId ⟨0⟩ }).after
      ((Edit.addDebugInfo {}).after {}))).classDefs.item? ⟨0⟩ = some { type := .ofId ⟨0⟩, flags := 1 } := by
    rw [Edit.after_of_ok rfl run]
    rfl
  obtain ⟨final, gone⟩ := removeClass_of_defined found
  exact ⟨fitting', noneDangling_of_reached.1 fitting', described', _, final, gone,
    noneDangling_of_reached.2 described' _ _ _ gone⟩

/-- Code without debug information whose exception handler is linked to a type of another file. -/
def foreignCatch : CodeItem where
  handlers := [{ catches := [(.ofId ⟨0⟩, 0)], catchAll := none }]

/-- Linking leaves a reference that names an item already, so the exception type stays when the code is added to a
file without types. -/
theorem not_anchored_foreignCatch : ((Edit.addCode foreignCatch).after {}).Reached Edit.Describes ∧
    (∃ id code, addCode foreignCatch {} = .ok id ((Edit.addCode foreignCatch).after {}) ∧
      ((Edit.addCode foreignCatch).after {}).codes.item? id = some code ∧ code.handlers = foreignCatch.handlers) ∧
    ¬((Edit.addCode foreignCatch).after {}).Anchored := by
  have described : foreignCatch.debugInfo.Live ({} : DexFile).debugInfos := OffsetRef.live_absent _
  refine ⟨.edit .new described, ⟨⟨0⟩, _, rfl, rfl, rfl⟩, fun anchored => ?_⟩
  obtain ⟨_, _, handlers⟩ := anchored .codeItem Part.noConfusion ⟨0⟩ _ rfl
  exact absurd (handlers _ List.mem_cons_self _ List.mem_cons_self ⟨0⟩ rfl) (by decide)

end DexFile
end DexArsc.Dex
