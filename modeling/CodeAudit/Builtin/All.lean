import CodeAudit.Builtin.Complexity
import CodeAudit.Builtin.Guard
import CodeAudit.Builtin.Naming

namespace CodeAudit.Builtin

def providers [PatternLanguage] : List Provider := [complexity, style, guardProvider]

end CodeAudit.Builtin
