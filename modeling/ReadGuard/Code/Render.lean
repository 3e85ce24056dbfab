import ReadGuard.Code.Walk

namespace ReadGuard

namespace Expr

mutual

def render : Expr → String
  | .ident id => id.name
  | .lit _ value _ => value
  | .composite elems info =>
    (match info.type with
      | some t => t.text
      | none => "") ++ "\x7b" ++ ", ".intercalate (renderAll elems) ++ "\x7d"
  | .keyValue key value _ => key.render ++ ": " ++ value.render
  | .funcLit _ _ _ => "func literal"
  | .paren x _ => "(" ++ x.render ++ ")"
  | .selector x field _ => x.render ++ "." ++ field
  | .index x i _ => x.render ++ "[" ++ i.render ++ "]"
  | .star x _ => "*" ++ x.render
  | .unary op x _ => op ++ x.render
  | .binary op x y _ => x.render ++ " " ++ op ++ " " ++ y.render
  | .call fn args _ => fn.render ++ "(" ++ ", ".intercalate (renderAll args) ++ ")"

def renderAll : List Expr → List String
  | [] => []
  | e :: es => e.render :: renderAll es

end

def kindName : Expr → String
  | .ident _ => "Ident"
  | .lit _ _ _ => "BasicLit"
  | .composite _ _ => "CompositeLit"
  | .keyValue _ _ _ => "KeyValueExpr"
  | .funcLit _ _ _ => "FuncLit"
  | .paren _ _ => "ParenExpr"
  | .selector _ _ _ => "SelectorExpr"
  | .index _ _ _ => "IndexExpr"
  | .star _ _ => "StarExpr"
  | .unary _ _ _ => "UnaryExpr"
  | .binary _ _ _ _ => "BinaryExpr"
  | .call _ _ _ => "CallExpr"

end Expr

def Stmt.kindName : Stmt → String
  | .expr _ _ => "ExprStmt"
  | .assign _ _ _ _ => "AssignStmt"
  | .incDec _ _ _ => "IncDecStmt"
  | .decl _ _ _ _ => "DeclStmt"
  | .ret _ _ => "ReturnStmt"
  | .block _ => "BlockStmt"
  | .cond _ _ _ _ _ => "IfStmt"
  | .loop _ _ _ _ _ => "ForStmt"
  | .range _ _ _ _ _ _ => "RangeStmt"
  | .switch _ _ _ _ => "SwitchStmt"
  | .clause _ => "CaseClause"
  | .defer _ _ => "DeferStmt"
  | .go _ _ => "GoStmt"
  | .branch _ _ _ => "BranchStmt"

namespace Node

def kindName : Node → String
  | .expr e => e.kindName
  | .stmt s => s.kindName
  | .param _ => "Param"
  | .func _ => "FuncDecl"
  | .file _ => "File"
  | .unit _ => "Unit"

def pos : Node → Position
  | .expr e => e.pos
  | .stmt s => s.pos
  | .param p => p.info.pos
  | .func f => f.pos
  | .file _ => {}
  | .unit _ => {}

def render : Node → Except String String
  | .expr e => .ok e.render
  | n => .error (errorText n.pos ("unsupported syntax node " ++ n.kindName) "RWS-1201")

end Node

end ReadGuard
