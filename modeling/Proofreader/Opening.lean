import Proofreader.Session
import Proofreader.Tool.Factory

/-!
# Opening sessions

A session is opened from settings: first its own engine, then one engine for each
auxiliary language.  If one of the latter cannot be built, those that were built
before are closed again.
-/

namespace Proofreader

/-- How the opening of a session turns out.  Tools that were built in vain are
closed. -/
structure Opened where
  outcome : Except BuildFailure Session
  /-- The tools that belong to no session. -/
  abandoned : List Tool
  requests : Nat

namespace Session

structure Auxiliaries where
  engines : List Engine
  failure : Option BuildFailure
  requests : Nat

def buildAuxiliaries (m : ToolManager) (f : ToolFactory) : Nat → List Text → Auxiliaries
  | requests, [] => ⟨[], none, requests⟩
  | requests, language :: rest =>
      let b := m.buildSpellingTool f requests language
      match b.outcome with
      | .error e => ⟨[], some e, b.requests⟩
      | .ok t =>
          let r := buildAuxiliaries m f b.requests rest
          { r with engines := Engine.start t (some language) [] true :: r.engines }

/-- Opens a session with the tools of a manager that need not know the same settings. -/
def openThrough (m : ToolManager) (f : ToolFactory) (requests : Nat) (s : Settings) : Opened :=
  let b := m.buildTool f requests (some s.language)
  match b.outcome with
  | .error e => ⟨.error e, [], b.requests⟩
  | .ok t =>
      let engine := Engine.start t (some s.language) m.ignoredWords false
      let r := buildAuxiliaries m f b.requests s.auxiliaryLanguages
      let session := Session.start engine r.engines
      match r.failure with
      | none => ⟨.ok session, [], r.requests⟩
      | some e => ⟨.error e, session.close.tools, r.requests⟩

def openWith (f : ToolFactory) (requests : Nat) (s : Settings) : Opened :=
  openThrough (ToolManager.ofSettings s) f requests s

end Session

end Proofreader
