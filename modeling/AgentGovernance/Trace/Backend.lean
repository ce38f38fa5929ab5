import AgentGovernance.Trace.Tampering

/-!
# Store backends

A core keeps its trace in one of two stores. The log lives as long as the process that holds it; a
ledger is found as it was left when it is opened again.
-/
namespace AgentGovernance

namespace Trace

inductive Backend where
  | log (s : Log)
  | ledger (s : Ledger)

namespace Backend

def withLog (r : Log × Except StoreError Unit) : Backend × Except StoreError Unit := (.log r.1, r.2)

def withLedger (r : Ledger × Except StoreError Unit) : Backend × Except StoreError Unit :=
  (.ledger r.1, r.2)

instance : Store Backend where
  append
    | .log s, e => withLog (Store.append s e)
    | .ledger s, e => withLedger (Store.append s e)
  get
    | .log s => Store.get s
    | .ledger s => Store.get s
  last
    | .log s => Store.last s
    | .ledger s => Store.last s
  range
    | .log s => Store.range s
    | .ledger s => Store.range s
  size
    | .log s => Store.size s
    | .ledger s => Store.size s

def reopen : Backend → Backend
  | .log _ => .log {}
  | .ledger s => .ledger s

end Backend

end Trace

end AgentGovernance
