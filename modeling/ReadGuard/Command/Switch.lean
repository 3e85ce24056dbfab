namespace ReadGuard.Command

inductive Switch
  | help
  | version
  | verbose
  | reader
  | data
  | typeName
  | writer
  | config
  | strict
  | suppress
  | format
  | output
  | callGraph
deriving DecidableEq, Repr

namespace Switch

def spellings : List (String × Switch) :=
  [("-h", .help), ("--help", .help), ("--version", .version), ("-v", .verbose),
   ("--verbose", .verbose), ("--reader", .reader), ("--data", .data), ("--struct", .typeName),
   ("--writer", .writer), ("--config", .config), ("--strict", .strict), ("--suppress", .suppress),
   ("--format", .format), ("-o", .output), ("--output", .output), ("--callgraph-dot", .callGraph)]

def ofSpelling? (spelling : String) : Option Switch :=
  spellings.lookup spelling

def startingWith (start : String) : List (String × Switch) :=
  spellings.filter fun s => start.toList.isPrefixOf s.1.toList

def shown (s : Switch) : String :=
  "/".intercalate ((spellings.filter fun p => p.2 = s).map (·.1))

def takesValue : Switch → Bool
  | .help | .version | .verbose | .strict => false
  | _ => true

end Switch

end ReadGuard.Command
