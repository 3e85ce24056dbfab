import ReadGuard.Check.Verdict

namespace ReadGuard

def shownEntries (entries : List (String × Nat)) : String :=
  "\x7b" ++ ", ".intercalate (entries.map fun (name, value) =>
    Text.quote name ++ ": " ++ toString value) ++ "\x7d"

namespace Findings

def log (f : Findings) (unit : String) : List LogLine :=
  let line (level : LogLevel) (message : String) : LogLine := ⟨level, "rwsep.analyzer", message⟩
  f.duplicates.map (fun key => line .warning
      ("duplicate function " ++ key ++ " in unit " ++ unit ++ "; keeping the first")) ++
    line .info ("analysing unit " ++ unit ++ ": " ++ toString f.graph.size ++ " function(s)") ::
    f.notes.flatMap Note.log ++
    [⟨.debug, "rwsep.callgraph", "closure converged after " ++ toString f.passes ++ " pass(es)"⟩,
     line .info ("unit " ++ unit ++ ": " ++ toString f.issues.length ++ " issue(s), " ++
       toString f.rewalks ++ " taint re-walk(s), " ++ toString f.passes ++ " closure pass(es)"),
     line .debug ("call graph statistics for " ++ unit ++ ": " ++ shownEntries f.statistics),
     line .debug f.graph.summary]

end Findings

def Verdict.log (p : Policy) (unit : String) : Verdict → List LogLine
  | .skipped => [⟨.info, "rwsep.analyzer",
      "skipping unit " ++ unit ++ ": not the reader unit " ++ p.reader⟩]
  | .checked f => f.log unit
  | .broken _ => []

end ReadGuard
