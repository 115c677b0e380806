/-!
# What the program says about itself
-/

namespace SessionBroker.CommandLine

def versionText : String := "runspace-coordinator 0.1.0\n"

def helpText : String := versionText ++
  "Interactive shell over a coordinated interpreter session

USAGE:
    runspace-coordinator [OPTIONS]

OPTIONS:
    -c, --config <FILE>             Path to configuration file (JSON)
    -l, --log-level <LVL>           Log level (error, warn, info, debug, trace)
        --min-engine-version <V>    Oldest accepted engine version [default: 5.1]
        --no-probe                  Skip the identity probe after each command
    -h, --help                      Print help
    -V, --version                   Print version

ENVIRONMENT VARIABLES:
    RUNSPACE_COORDINATOR_LOG_LEVEL          Log level (overrides config)
    RUNSPACE_COORDINATOR_MIN_ENGINE_VERSION Minimum engine version (overrides config)
    RUST_LOG                                Alternative log level setting

COMMANDS:
    exit        Leave the shell
    Ctrl+C      Abort the running command

EXAMPLES:
    # Start with defaults
    runspace-coordinator

    # Verbose coordinator logging
    runspace-coordinator -l debug

    # Start with config file
    runspace-coordinator -c ./coordinator.json

"

def hintText : String := "Try 'runspace-coordinator --help' for more information.\n"

end SessionBroker.CommandLine
