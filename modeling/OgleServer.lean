import OgleServer.Kernel
import OgleServer.Dwarf
import OgleServer.Fmt
import OgleServer.Server
import OgleServer.Files
import OgleServer.Eval
import OgleServer.Breakpoints
import OgleServer.Resume
import OgleServer.Frames
import OgleServer.Handlers
import OgleServer.Invariants
import OgleServer.Integrity
import OgleServer.Order
import OgleServer.Sessions
import OgleServer.Controller
import OgleServer.Failures
import OgleServer.Load
import OgleServer.Ogler
