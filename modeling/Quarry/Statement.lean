import Quarry.Value

namespace Quarry

structure Statement where
  sql : String
  values : List Value

end Quarry
