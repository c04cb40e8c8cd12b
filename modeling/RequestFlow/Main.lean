import RequestFlow.FileFetch

/-!
# The command line

Fetches the file that the first argument names and tells how many bytes came back.
-/

open RequestFlow

namespace RequestFlow.FileFetch

/-- What the path leads to on this machine. -/
def entryAt (path : String) : IO Entry := do
  try
    let content ← IO.FS.readBinFile path
    return .file content.toList
  catch
    | .permissionDenied .. => return .locked
    | .inappropriateType _ code _ =>
      return .unreadable (if code = 21 then .isFolder else .notFolder)
    | .invalidArgument _ code _ => return .unreadable (if code = 36 then .nameTooLong else .noSize)
    | _ => return .unreadable .missing

/-- The directory as far as one url asks for it. -/
def directoryFor (url : String) : IO Directory := do
  match (pathOf? (text url)).bind fun path => String.fromUTF8? ⟨path.toArray⟩ with
  | none => return fun _ => .unreadable .missing
  | some path =>
    let entry ← entryAt path
    return fun _ => entry

end RequestFlow.FileFetch

def main (args : List String) : IO UInt32 := do
  let directory ← FileFetch.directoryFor (args.headD "")
  let result := FileFetch.run directory (text "file-fetch") (args.map text)
  (← IO.getStdout).write ⟨result.out.toArray⟩
  (← IO.getStderr).write ⟨result.err.toArray⟩
  match result.exit with
  | .ok code => return code.toUInt32
  | .error f =>
    (← IO.getStderr).write ⟨(f.message ++ text "\n").toArray⟩
    return 134
